/-
The texts of JSON values.

`Spelled` is the grammar of the texts that a value is written as, with any blanks between the parts of an array or object;
strings and numbers have one spelling each. A text of the grammar is read to its end and gives the value back
(`Spelled.read`); inside a longer text it does so unless what follows goes on with a number (`Spelled.readFrom`). Both ways
of writing a value stay within the grammar when every part of it has a value (`Whole.spelled_compact`,
`Whole.spelled_pretty`), so both are read back (`Whole.read_compact`, `Whole.read_pretty`).
-/
import Mathlib.Data.List.Basic
import Mathlib.Tactic.IntervalCases
import Refutation.Json.Read
import Refutation.Json.Write

namespace Refutation.Json

/-! ## Strings -/

/-- a control character is read back from its number -/
theorem unitPiece?_control : ∀ n < 0x20,
    unitPiece? '0' '0' (hexDigit (n / 16)) (hexDigit (n % 16)) = some (.char (Char.ofNat n)) := by
  decide

theorem readPieces_plain {c : Char} {cs : List Char} (hquote : c ≠ '"') (hback : c ≠ '\\') (hcontrol : ¬ c.toNat < 0x20) :
    readPieces (c :: cs) = (readPieces cs).map fun (ps, rest) => (.char c :: ps, rest) := by
  rw [readPieces]
  · rw [if_neg (by simp [hback, hcontrol])]
    cases readPieces cs <;> rfl
  · exact hquote
  · rintro _ _ _ _ _ rfl
    exact absurd rfl hback
  · rintro _ _ rfl
    exact absurd rfl hback

theorem readPieces_letter {e c : Char} {cs : List Char} (hu : e ≠ 'u') (he : escaped? e = some c) :
    readPieces ('\\' :: e :: cs) = (readPieces cs).map fun (ps, rest) => (.char c :: ps, rest) := by
  rw [readPieces, he]
  · cases readPieces cs <;> rfl
  · rintro _ _ _ _ _ rfl
    exact absurd rfl hu

theorem readPieces_unit {a b c d : Char} {p : Piece} {cs : List Char} (h : unitPiece? a b c d = some p) :
    readPieces ('\\' :: 'u' :: a :: b :: c :: d :: cs) = (readPieces cs).map fun (ps, rest) => (p :: ps, rest) := by
  rw [readPieces, h]
  cases readPieces cs <;> rfl

theorem readPieces_escape (c : Char) (cs : List Char) :
    readPieces (escape c ++ cs) = (readPieces cs).map fun (ps, rest) => (.char c :: ps, rest) := by
  unfold escape
  split_ifs with hquote hback hb ht hn hf hr hcontrol
  -- seven characters have a letter of their own
  iterate 7
    · subst c
      exact readPieces_letter (by decide) rfl
  · have hunit := unitPiece?_control c.toNat hcontrol
    rw [Char.ofNat_toNat] at hunit
    exact readPieces_unit hunit
  · exact readPieces_plain hquote hback hcontrol

theorem joinPieces_chars (cs : List Char) : joinPieces (cs.map .char) = some cs := by
  induction cs with
  | nil => rfl
  | cons c cs ih => rw [List.map_cons, joinPieces, ih, Option.map_some]

theorem readPieces_quoted (cs rest : List Char) :
    readPieces (cs.flatMap escape ++ '"' :: rest) = some (cs.map .char, rest) := by
  induction cs with
  | nil => rfl
  | cons c cs ih => rw [List.flatMap_cons, List.append_assoc, readPieces_escape, ih, Option.map_some, List.map_cons]

theorem readString_quoted (s : String) (rest : List Char) :
    readString (s.toList.flatMap escape ++ '"' :: rest) = some (some s, rest) := by
  simp only [readString, readPieces_quoted, Option.map_some, joinPieces_chars, String.ofList_toList]

/-! ## Numbers -/

/-- what follows does not go on with a number -/
def Ends (rest : List Char) : Prop := ∀ c ∈ rest.head?, isDigit c = false ∧ c ≠ '.' ∧ c ≠ 'e' ∧ c ≠ 'E'

theorem isDigit_of_mem_toDigits {n : Nat} {c : Char} (h : c ∈ Nat.toDigits 10 n) : isDigit c = true :=
  Nat.isDigit_of_mem_toDigits (by decide) (by decide) h

theorem digitsValue_toDigits (n : Nat) : digitsValue (Nat.toDigits 10 n) = n := by
  have h : digitsValue (Nat.toDigits 10 n) = Nat.ofDigitChars 10 (Nat.toDigits 10 n) 0 := by
    simp only [digitsValue, Nat.ofDigitChars_eq_foldl, Nat.mul_comm]
  rw [h, Nat.ofDigitChars_toDigits (by decide) (by decide)]

/-- digits are read up to what follows them -/
theorem readDigits_toDigits (n : Nat) {rest : List Char} (h : ∀ c ∈ rest.head?, isDigit c = false) :
    readDigits (Nat.toDigits 10 n ++ rest) = some (Nat.toDigits 10 n, rest) := by
  obtain ⟨htake, hdrop⟩ : rest.takeWhile isDigit = [] ∧ rest.dropWhile isDigit = rest := by
    cases rest with
    | nil => exact ⟨rfl, rfl⟩
    | cons c rest => simp [h c rfl]
  rw [readDigits, List.takeWhile_append_of_pos fun c hc => isDigit_of_mem_toDigits hc,
    List.dropWhile_append_of_pos fun c hc => isDigit_of_mem_toDigits hc, htake, hdrop, List.append_nil]
  split
  · exact absurd (by assumption) Nat.toDigits_ne_nil
  · rfl

theorem head?_toDigits_ne {n : Nat} (h : 0 < n) : (Nat.toDigits 10 n).head? ≠ some '0' := by
  induction n using Nat.strongRecOn with
  | ind n ih =>
    by_cases hn : n < 10
    · rw [Nat.toDigits_of_lt_base hn]
      interval_cases n <;> decide
    · rw [Nat.toDigits_of_base_le (by decide) (by omega), List.head?_append_of_ne_nil _ Nat.toDigits_ne_nil]
      exact ih (n / 10) (by omega) (by omega)

/-- no superfluous zero is written -/
theorem readWhole_toDigits (n : Nat) {rest : List Char} (h : ∀ c ∈ rest.head?, isDigit c = false) :
    readWhole (Nat.toDigits 10 n ++ rest) = some (Nat.toDigits 10 n, rest) := by
  rw [readWhole, readDigits_toDigits n h]
  split
  · next heq =>
    obtain ⟨hdigits, -⟩ : Nat.toDigits 10 n = _ ∧ rest = _ := by simpa using heq
    rcases Nat.eq_zero_or_pos n with rfl | hn
    · simp at hdigits
    · exact absurd (by rw [hdigits, List.head?_cons]) (head?_toDigits_ne hn)
  · rfl

/-- a text that starts with a number starts with a digit -/
theorem isDigit_of_toDigits_append {n : Nat} {rest cs : List Char} {c : Char} (h : Nat.toDigits 10 n ++ rest = c :: cs) :
    isDigit c = true := by
  rcases List.append_eq_cons_iff.1 h with ⟨hnil, -⟩ | ⟨ds, hdigits, -⟩
  · exact absurd hnil Nat.toDigits_ne_nil
  · exact isDigit_of_mem_toDigits (n := n) (hdigits ▸ List.mem_cons_self)

theorem readFraction_of_ne {rest : List Char} (h : rest.head? ≠ some '.') : readFraction rest = some ([], rest) := by
  rw [readFraction]
  rintro _ rfl
  exact h rfl

theorem readExponent_of_ends {rest : List Char} (h : Ends rest) : readExponent rest = some (none, rest) := by
  rw [readExponent]
  · rintro _ rfl
    exact (h 'e' rfl).2.2.1 rfl
  · rintro _ rfl
    exact (h 'E' rfl).2.2.2 rfl

/-- the exponent of a decimal number is read back -/
theorem Number.write_decimal (negative : Bool) (digits : Nat) (exponent : Int) :
    ∃ tail, (Number.decimal negative digits exponent).write =
        (if negative then ['-'] else []) ++ Nat.toDigits 10 digits ++ 'e' :: tail ∧
      ∀ rest, Ends rest → readSigned (tail ++ rest) = some (exponent, rest) := by
  cases exponent with
  | ofNat k =>
    refine ⟨Nat.toDigits 10 k, rfl, fun rest h => ?_⟩
    rw [readSigned, readDigits_toDigits k fun c hc => (h c hc).1]
    · simp [digitsValue_toDigits]
    · exact fun _ hcons => absurd (isDigit_of_toDigits_append hcons) (by decide)
    · exact fun _ hcons => absurd (isDigit_of_toDigits_append hcons) (by decide)
  | negSucc k =>
    refine ⟨'-' :: Nat.toDigits 10 (k + 1), rfl, fun rest h => ?_⟩
    rw [List.cons_append, readSigned, readDigits_toDigits (k + 1) fun c hc => (h c hc).1]
    simp [digitsValue_toDigits, Int.negSucc_eq]

theorem readNumber_unsigned (n : Nat) (rest : List Char) :
    readNumber (Nat.toDigits 10 n ++ rest) = readUnsigned false (Nat.toDigits 10 n ++ rest) := by
  rw [readNumber]
  exact fun _ hcons => absurd (isDigit_of_toDigits_append hcons) (by decide)

/-- a number is read back up to what follows it -/
theorem readNumber_write (n : Number) {rest : List Char} (h : Ends rest) :
    readNumber (n.write ++ rest) = some (n, rest) := by
  cases n with
  | natural n =>
    have hfraction : readFraction rest = some ([], rest) := readFraction_of_ne fun hpoint => (h '.' hpoint).2.1 rfl
    rw [Number.write, readNumber_unsigned, readUnsigned, readWhole_toDigits n fun c hc => (h c hc).1]
    simp [hfraction, readExponent_of_ends h, digitsValue_toDigits]
  | decimal negative digits exponent =>
    obtain ⟨tail, hwrite, htail⟩ := Number.write_decimal negative digits exponent
    have hunsigned : readUnsigned negative (Nat.toDigits 10 digits ++ 'e' :: (tail ++ rest)) =
        some (.decimal negative digits exponent, rest) := by
      have hfraction : readFraction ('e' :: (tail ++ rest)) = some ([], 'e' :: (tail ++ rest)) :=
        readFraction_of_ne (by simp)
      have hexponent : readExponent ('e' :: (tail ++ rest)) = some (some exponent, rest) := by
        rw [readExponent, htail rest h, Option.map_some]
      rw [readUnsigned, readWhole_toDigits digits (by simp; decide)]
      simp [hfraction, hexponent, digitsValue_toDigits]
    rw [hwrite, List.append_assoc, List.append_assoc, List.cons_append]
    cases negative with
    | false =>
      rw [if_neg (by decide), List.nil_append, readNumber_unsigned]
      exact hunsigned
    | true =>
      rw [if_pos rfl]
      exact hunsigned

/-! ## The grammar -/

/-- blanks between the parts of a text -/
def Blank (cs : List Char) : Prop := ∀ c ∈ cs, isSpace c = true

/-- a value, or the items or members that are left of one -/
inductive Node where
  | value (j : Json)
  | items (items : List Json)
  | members (members : List (String × Json))

/-- The texts of a node, from its first character on. Those of items and members go up to the end of the array or the
object. -/
inductive Spelled : Node → List Char → Prop where
  | null : Spelled (.value .null) "null".toList
  | bool (b : Bool) : Spelled (.value (.bool b)) (writeBool b)
  | number (n : Number) : Spelled (.value (.number n)) n.write
  | string (s : String) : Spelled (.value (.string s)) (quote s)
  | noItems : Spelled (.value (.array [])) ['[', ']']
  | array {a text : List Char} {items : List Json} (ha : Blank a) (h : Spelled (.items items) text) :
    Spelled (.value (.array items)) ('[' :: a ++ text)
  | lastItem {b text : List Char} {item : Json} (h : Spelled (.value item) text) (hb : Blank b) :
    Spelled (.items [item]) (text ++ b ++ [']'])
  | item {a b text rest : List Char} {item : Json} {items : List Json} (h : Spelled (.value item) text) (hb : Blank b)
    (ha : Blank a) (hrest : Spelled (.items items) rest) :
    Spelled (.items (item :: items)) (text ++ b ++ ',' :: a ++ rest)
  | noMembers : Spelled (.value (.object [])) ['\x7b', '\x7d']
  | object {a text : List Char} {members : List (String × Json)} (ha : Blank a) (h : Spelled (.members members) text) :
    Spelled (.value (.object members)) ('\x7b' :: a ++ text)
  | lastMember {a b text : List Char} {value : Json} (name : String) (ha : Blank a) (h : Spelled (.value value) text)
    (hb : Blank b) : Spelled (.members [(name, value)]) (quote name ++ ':' :: a ++ text ++ b ++ ['\x7d'])
  | member {a b c text rest : List Char} {value : Json} {members : List (String × Json)} (name : String) (ha : Blank a)
    (h : Spelled (.value value) text) (hb : Blank b) (hc : Blank c) (hrest : Spelled (.members members) rest) :
    Spelled (.members ((name, value) :: members)) (quote name ++ ':' :: a ++ text ++ b ++ ',' :: c ++ rest)

/-! ## Reading -/

/-- the text is read as the node, up to what follows it -/
def Node.ReadFrom (fuel : Nat) (text rest : List Char) : Node → Prop
  | .value j => readValue fuel (text ++ rest) = some (j, rest)
  | .items js => readItems fuel (text ++ rest) = some (js, rest)
  | .members ms => readMembers fuel (text ++ rest) = some (ms.map fun m => (some m.1, m.2), rest)

theorem skipSpace_append {a : List Char} (ha : Blank a) (cs : List Char) : skipSpace (a ++ cs) = skipSpace cs :=
  List.dropWhile_append_of_pos ha

theorem skipSpace_cons {c : Char} (hc : isSpace c = false) (cs : List Char) : skipSpace (c :: cs) = c :: cs :=
  List.dropWhile_cons_of_neg (by simp [hc])

theorem readValue_append (fuel : Nat) {a : List Char} (ha : Blank a) (cs : List Char) :
    readValue fuel (a ++ cs) = readValue fuel cs := by
  cases fuel with
  | zero => rw [readValue, readValue]
  | succ fuel => rw [readValue, readValue, skipSpace_append ha]

theorem readItems_append (fuel : Nat) {a : List Char} (ha : Blank a) (cs : List Char) :
    readItems fuel (a ++ cs) = readItems fuel cs := by
  cases fuel with
  | zero => rw [readItems, readItems]
  | succ fuel => rw [readItems, readItems, readValue_append fuel ha]

theorem readMembers_append (fuel : Nat) {a : List Char} (ha : Blank a) (cs : List Char) :
    readMembers fuel (a ++ cs) = readMembers fuel cs := by
  cases fuel with
  | zero => rw [readMembers, readMembers]
  | succ fuel => rw [readMembers, readMembers, skipSpace_append ha]

/-- a number starts with a digit or a sign -/
def startsNumber (c : Char) : Bool := isDigit c || c == '-'

theorem ne_of_startsNumber {c d : Char} (hc : startsNumber c = true) (hd : startsNumber d = false) : c ≠ d := by
  rintro rfl
  rw [hc] at hd
  cases hd

theorem Number.write_eq_cons (n : Number) : ∃ c cs, n.write = c :: cs ∧ startsNumber c = true := by
  have hdigits (n : Nat) (rest : List Char) : ∃ c cs, Nat.toDigits 10 n ++ rest = c :: cs ∧ startsNumber c = true := by
    obtain ⟨c, cs, hcons⟩ := List.exists_cons_of_ne_nil (List.append_ne_nil_of_left_ne_nil Nat.toDigits_ne_nil rest)
    exact ⟨c, cs, hcons, by rw [startsNumber, isDigit_of_toDigits_append hcons, Bool.true_or]⟩
  cases n with
  | natural n =>
    rw [Number.write, ← List.append_nil (Nat.toDigits 10 n)]
    exact hdigits n []
  | decimal negative digits exponent =>
    obtain ⟨tail, hwrite, -⟩ := Number.write_decimal negative digits exponent
    rw [hwrite, List.append_assoc]
    cases negative with
    | false => exact hdigits digits _
    | true => exact ⟨'-', _, rfl, rfl⟩

theorem isSpace_eq_false {c : Char} (h : startsNumber c = true) : isSpace c = false := by
  have hne (d : Char) (hd : startsNumber d = false) : c ≠ d := ne_of_startsNumber h hd
  simp [isSpace, hne ' ' (by decide), hne '\t' (by decide), hne '\n' (by decide), hne '\r' (by decide)]

/-- texts start with a character that is no blank and closes nothing -/
theorem Spelled.eq_cons {node : Node} {text : List Char} (h : Spelled node text) :
    ∃ c cs, text = c :: cs ∧ isSpace c = false ∧ c ≠ ']' ∧ c ≠ '\x7d' := by
  induction h with
  | null => exact ⟨_, _, rfl, by decide⟩
  | bool b => cases b <;> exact ⟨_, _, rfl, by decide⟩
  | number n =>
    obtain ⟨c, cs, hwrite, hc⟩ := n.write_eq_cons
    exact ⟨c, cs, hwrite, isSpace_eq_false hc, ne_of_startsNumber hc (by decide), ne_of_startsNumber hc (by decide)⟩
  | string s => exact ⟨_, _, rfl, by decide⟩
  | noItems => exact ⟨_, _, rfl, by decide⟩
  | array _ _ _ => exact ⟨_, _, rfl, by decide⟩
  | lastItem _ _ ih =>
    obtain ⟨c, cs, rfl, hc⟩ := ih
    exact ⟨c, _, rfl, hc⟩
  | item _ _ _ _ ih _ =>
    obtain ⟨c, cs, rfl, hc⟩ := ih
    exact ⟨c, _, rfl, hc⟩
  | noMembers => exact ⟨_, _, rfl, by decide⟩
  | object _ _ _ => exact ⟨_, _, rfl, by decide⟩
  | lastMember name _ _ _ _ => exact ⟨_, _, rfl, by decide⟩
  | member name _ _ _ _ _ _ _ => exact ⟨_, _, rfl, by decide⟩

/-- what comes after a part does not go on with a number -/
theorem ends_append {b : List Char} (hb : Blank b) {c : Char} (hc : c ∈ [',', ']', '\x7d']) (cs : List Char) :
    Ends (b ++ c :: cs) := by
  have hmarks : ∀ d ∈ [',', ']', '\x7d'] ++ [' ', '\t', '\n', '\r'],
      isDigit d = false ∧ d ≠ '.' ∧ d ≠ 'e' ∧ d ≠ 'E' := by simp [isDigit]
  intro d hd
  cases b with
  | nil =>
    obtain rfl : c = d := by simpa using hd
    exact hmarks c (List.mem_append_left _ hc)
  | cons x b =>
    obtain rfl : x = d := by simpa using hd
    have hspace : x ∈ [' ', '\t', '\n', '\r'] := by simpa [isSpace, or_assoc] using hb x List.mem_cons_self
    exact hmarks x (List.mem_append_right _ hspace)

section Parts

variable {fuel : Nat} {a b text tail rest : List Char} {value : Json} {items : List Json}
  {members : List (String × Json)}

theorem readValue_number (n : Number) (h : Ends rest) :
    readValue (fuel + 1) (n.write ++ rest) = some (.number n, rest) := by
  obtain ⟨c, cs, hwrite, hc⟩ := n.write_eq_cons
  have hread := readNumber_write n h
  rw [hwrite, List.cons_append] at hread ⊢
  rw [readValue, skipSpace_cons (isSpace_eq_false hc)]
  split
  -- none of the other values starts with a digit or a sign
  iterate 6
    · next heq => exact absurd (List.cons.inj heq).1 (ne_of_startsNumber hc (by decide))
  · rw [hread, Option.map_some]

theorem readValue_string (s : String) : readValue (fuel + 1) (quote s ++ rest) = some (.string s, rest) := by
  rw [quote, List.append_assoc, List.cons_append, List.singleton_append, readValue, skipSpace_cons (by decide)]
  simp only [readString_quoted]

theorem readValue_bool (b : Bool) : readValue (fuel + 1) (writeBool b ++ rest) = some (.bool b, rest) := by
  cases b <;> rfl

theorem readValue_array (ha : Blank a) (h : Spelled (.items items) text)
    (hread : (Node.items items).ReadFrom fuel text rest) :
    readValue (fuel + 1) ('[' :: a ++ text ++ rest) = some (.array items, rest) := by
  obtain ⟨c, cs, rfl, hspace, hclose, -⟩ := h.eq_cons
  simp only [Node.ReadFrom, List.cons_append] at hread
  rw [List.append_assoc, List.cons_append, readValue, skipSpace_cons (by decide)]
  simp only [skipSpace_append ha, List.cons_append, skipSpace_cons hspace]
  split
  · next heq => exact absurd (List.cons.inj heq).1 hclose
  · rw [hread, Option.map_some]

theorem objectOf_named (members : List (String × Json)) :
    objectOf (members.map fun m => (some m.1, m.2)) = .object members := by
  have h : (members.map fun m => (some m.1, m.2)).mapM (fun m : Option String × Json => m.1.map (·, m.2)) =
      some members := by
    induction members with
    | nil => rfl
    | cons m members ih => simp [List.mapM_cons, ih]
  rw [objectOf, h]

theorem readValue_object (ha : Blank a) (h : Spelled (.members members) text)
    (hread : (Node.members members).ReadFrom fuel text rest) :
    readValue (fuel + 1) ('\x7b' :: a ++ text ++ rest) = some (.object members, rest) := by
  obtain ⟨c, cs, rfl, hspace, -, hclose⟩ := h.eq_cons
  simp only [Node.ReadFrom, List.cons_append] at hread
  rw [List.append_assoc, List.cons_append, readValue, skipSpace_cons (by decide)]
  simp only [skipSpace_append ha, List.cons_append, skipSpace_cons hspace]
  split
  · next heq => exact absurd (List.cons.inj heq).1 hclose
  · rw [hread, Option.map_some, objectOf_named]

theorem readItems_last (hb : Blank b) (h : (Node.value value).ReadFrom fuel text (b ++ ']' :: rest)) :
    readItems (fuel + 1) (text ++ (b ++ ']' :: rest)) = some ([value], rest) := by
  simp only [Node.ReadFrom] at h
  rw [readItems, h]
  simp only [skipSpace_append hb, skipSpace_cons (c := ']') (by decide)]

theorem readItems_next (hb : Blank b) (ha : Blank a)
    (h : (Node.value value).ReadFrom fuel text (b ++ ',' :: (a ++ (tail ++ rest))))
    (htail : (Node.items items).ReadFrom fuel tail rest) :
    readItems (fuel + 1) (text ++ (b ++ ',' :: (a ++ (tail ++ rest)))) = some (value :: items, rest) := by
  simp only [Node.ReadFrom] at h htail
  rw [readItems, h]
  simp only [skipSpace_append hb, skipSpace_cons (c := ',') (by decide), readItems_append fuel ha, htail, Option.map_some]

theorem readMembers_last (name : String) (ha : Blank a) (hb : Blank b)
    (h : (Node.value value).ReadFrom fuel text (b ++ '\x7d' :: rest)) :
    readMembers (fuel + 1) (quote name ++ ':' :: (a ++ (text ++ (b ++ '\x7d' :: rest)))) =
      some ([(some name, value)], rest) := by
  simp only [Node.ReadFrom] at h
  rw [quote, List.append_assoc, List.cons_append, List.singleton_append, readMembers, skipSpace_cons (by decide)]
  simp only [readString_quoted, skipSpace_cons (c := ':') (by decide), readValue_append fuel ha, h, skipSpace_append hb,
    skipSpace_cons (c := '\x7d') (by decide)]

theorem readMembers_next {c : List Char} (name : String) (ha : Blank a) (hb : Blank b)
    (hc : Blank c) (h : (Node.value value).ReadFrom fuel text (b ++ ',' :: (c ++ (tail ++ rest))))
    (htail : (Node.members members).ReadFrom fuel tail rest) :
    readMembers (fuel + 1) (quote name ++ ':' :: (a ++ (text ++ (b ++ ',' :: (c ++ (tail ++ rest)))))) =
      some ((some name, value) :: members.map fun m => (some m.1, m.2), rest) := by
  simp only [Node.ReadFrom] at h htail
  rw [quote, List.append_assoc, List.cons_append, List.singleton_append, readMembers, skipSpace_cons (by decide)]
  simp only [readString_quoted, skipSpace_cons (c := ':') (by decide), readValue_append fuel ha, h, skipSpace_append hb,
    skipSpace_cons (c := ',') (by decide), readMembers_append fuel hc, htail, Option.map_some]

end Parts

/-- Every text of a node is read as that node, and its length is fuel enough. The induction is on the fuel, since the parts
of a text are shorter than the text. -/
theorem Spelled.readFrom {node : Node} {text : List Char} (h : Spelled node text) {fuel : Nat} {rest : List Char}
    (hfuel : text.length ≤ fuel) (hends : Ends rest) : node.ReadFrom fuel text rest := by
  induction fuel generalizing node text rest with
  | zero =>
    obtain ⟨c, cs, rfl, -⟩ := h.eq_cons
    cases hfuel
  | succ fuel ih =>
    have hlength := hfuel
    cases h with
    | null => rfl
    | bool b => exact readValue_bool b
    | number n => exact readValue_number n hends
    | string s => exact readValue_string s
    | noItems => rfl
    | array ha h =>
      simp only [List.length_append, List.length_cons] at hlength
      exact readValue_array ha h (ih h (by omega) hends)
    | lastItem h hb =>
      simp only [List.length_append, List.length_cons] at hlength
      simp only [Node.ReadFrom, List.append_assoc, List.singleton_append]
      exact readItems_last hb (ih h (by omega) (ends_append hb (by decide) rest))
    | item h hb ha hrest =>
      simp only [List.length_append, List.length_cons] at hlength
      simp only [Node.ReadFrom, List.append_assoc, List.cons_append]
      exact readItems_next hb ha (ih h (by omega) (ends_append hb (by decide) _)) (ih hrest (by omega) hends)
    | noMembers => rfl
    | object ha h =>
      simp only [List.length_append, List.length_cons] at hlength
      exact readValue_object ha h (ih h (by omega) hends)
    | lastMember name ha h hb =>
      simp only [List.length_append, List.length_cons] at hlength
      simp only [Node.ReadFrom, List.append_assoc, List.cons_append, List.nil_append]
      exact readMembers_last name ha hb (ih h (by omega) (ends_append hb (by decide) rest))
    | member name ha h hb hc hrest =>
      simp only [List.length_append, List.length_cons] at hlength
      simp only [Node.ReadFrom, List.append_assoc, List.cons_append]
      exact readMembers_next name ha hb hc (ih h (by omega) (ends_append hb (by decide) _)) (ih hrest (by omega) hends)

/-- a text of the grammar is read as its value -/
theorem Spelled.read {j : Json} {text : List Char} (h : Spelled (.value j) text) :
    read (String.ofList text) = some j := by
  have hread : readValue (2 * text.length + 2) (text ++ []) = some (j, []) := h.readFrom (by omega) (by simp [Ends])
  rw [List.append_nil] at hread
  simp [Json.read, hread, skipSpace]

/-! ## Writing -/

/-- every part has a value -/
inductive Whole : Json → Prop where
  | null : Whole .null
  | bool (b : Bool) : Whole (.bool b)
  | number (n : Number) : Whole (.number n)
  | string (s : String) : Whole (.string s)
  | array {items : List Json} (h : ∀ item ∈ items, Whole item) : Whole (.array items)
  | object {members : List (String × Json)} (h : ∀ m ∈ members, Whole m.2) : Whole (.object members)

attribute [simp] Whole.null Whole.bool Whole.number Whole.string

@[simp] theorem whole_array {items : List Json} : Whole (.array items) ↔ ∀ item ∈ items, Whole item :=
  ⟨fun | .array h => h, .array⟩

@[simp] theorem whole_object {members : List (String × Json)} : Whole (.object members) ↔ ∀ m ∈ members, Whole m.2 :=
  ⟨fun | .object h => h, .object⟩

theorem blank_nil : Blank [] := by simp [Blank]

theorem blank_newLine (level : Nat) : Blank (newLine level) := by
  intro c hc
  rcases List.mem_cons.1 hc with rfl | hc
  · rfl
  · rw [List.eq_of_mem_replicate hc]
    rfl

section Layout

variable {write : Json → List Char} {a b g : List Char}

/-- items are spelled by any way of writing that puts blanks before an item and before the end -/
theorem spelled_items {tail : List Json → List Char} (hnil : tail [] = b ++ [']'])
    (hcons : ∀ item items, tail (item :: items) = ',' :: a ++ write item ++ tail items) (ha : Blank a) (hb : Blank b)
    {items : List Json} (h : ∀ item ∈ items, Spelled (.value item) (write item)) {item : Json} {text : List Char}
    (htext : Spelled (.value item) text) : Spelled (.items (item :: items)) (text ++ tail items) := by
  induction items generalizing item text with
  | nil =>
    rw [hnil, ← List.append_assoc]
    exact .lastItem htext hb
  | cons next items ih =>
    obtain ⟨hnext, hitems⟩ := List.forall_mem_cons.1 h
    simpa [hcons] using Spelled.item htext blank_nil ha (ih hitems hnext)

/-- members are spelled by any way of writing that puts blanks before a member, after its colon and before the end -/
theorem spelled_members {tail : List (String × Json) → List Char} (hnil : tail [] = b ++ ['\x7d'])
    (hcons : ∀ name value members,
      tail ((name, value) :: members) = ',' :: a ++ quote name ++ ':' :: g ++ write value ++ tail members)
    (hg : Blank g) (ha : Blank a) (hb : Blank b) {members : List (String × Json)}
    (h : ∀ m ∈ members, Spelled (.value m.2) (write m.2)) (name : String) {value : Json} {text : List Char}
    (htext : Spelled (.value value) text) :
    Spelled (.members ((name, value) :: members)) (quote name ++ ':' :: g ++ text ++ tail members) := by
  induction members generalizing name value text with
  | nil =>
    rw [hnil, ← List.append_assoc]
    exact .lastMember name hg htext hb
  | cons next members ih =>
    obtain ⟨hnext, hmembers⟩ := List.forall_mem_cons.1 h
    simpa [hcons] using Spelled.member name hg htext blank_nil ha (ih hmembers next.1 hnext)

end Layout

/-- the text on one line is a text of the value -/
theorem Whole.spelled_compact {j : Json} (h : Whole j) : Spelled (.value j) j.writeCompact := by
  induction h with
  | null => exact .null
  | bool b => exact .bool b
  | number n => exact .number n
  | string s => exact .string s
  | @array items _ ih =>
    cases items with
    | nil => exact .noItems
    | cons item items =>
      obtain ⟨hitem, hitems⟩ := List.forall_mem_cons.1 ih
      have htext : Spelled (.items (item :: items)) (item.writeCompact ++ writeCompactItems items) :=
        spelled_items (b := []) (by simp [writeCompactItems]) (fun _ _ => by simp [writeCompactItems]) blank_nil blank_nil
          hitems hitem
      simpa [writeCompact] using Spelled.array blank_nil htext
  | @object members _ ih =>
    cases members with
    | nil => exact .noMembers
    | cons m members =>
      obtain ⟨hm, hmembers⟩ := List.forall_mem_cons.1 ih
      have htext : Spelled (.members (m :: members))
          (quote m.1 ++ ':' :: [] ++ m.2.writeCompact ++ writeCompactMembers members) :=
        spelled_members (b := []) (by simp [writeCompactMembers]) (fun _ _ _ => by simp [writeCompactMembers]) blank_nil
          blank_nil blank_nil hmembers m.1 hm
      simpa [writeCompact] using Spelled.object blank_nil htext

/-- the text spread over lines is a text of the value -/
theorem Whole.spelled_pretty {j : Json} (h : Whole j) (level : Nat) : Spelled (.value j) (j.writePretty level) := by
  induction h generalizing level with
  | null => exact .null
  | bool b => exact .bool b
  | number n => exact .number n
  | string s => exact .string s
  | @array items _ ih =>
    cases items with
    | nil => exact .noItems
    | cons item items =>
      obtain ⟨hitem, hitems⟩ := List.forall_mem_cons.1 fun item hitem => ih item hitem (level + 1)
      have htext : Spelled (.items (item :: items)) (item.writePretty (level + 1) ++ writePrettyItems level items) :=
        spelled_items (by rw [writePrettyItems]) (fun _ _ => by rw [writePrettyItems]) (blank_newLine (level + 1))
          (blank_newLine level) hitems hitem
      simpa [writePretty] using Spelled.array (blank_newLine (level + 1)) htext
  | @object members _ ih =>
    cases members with
    | nil => exact .noMembers
    | cons m members =>
      obtain ⟨hm, hmembers⟩ := List.forall_mem_cons.1 fun m hm => ih m hm (level + 1)
      have htext : Spelled (.members (m :: members))
          (quote m.1 ++ ':' :: [' '] ++ m.2.writePretty (level + 1) ++ writePrettyMembers level members) :=
        spelled_members (by rw [writePrettyMembers]) (fun _ _ _ => by simp [writePrettyMembers])
          (by simp [Blank, isSpace]) (blank_newLine (level + 1)) (blank_newLine level) hmembers m.1 hm
      simpa [writePretty] using Spelled.object (blank_newLine (level + 1)) htext

/-- a value is read back from its text on one line -/
theorem Whole.read_compact {j : Json} (h : Whole j) : read j.compact = some j := h.spelled_compact.read

/-- a value is read back from its text spread over lines -/
theorem Whole.read_pretty {j : Json} (h : Whole j) : read j.pretty = some j := (h.spelled_pretty 0).read

end Refutation.Json
