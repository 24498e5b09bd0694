/-
Substitutions: finite maps from variable names to terms. Two substitutions with the same bindings are equal (`ext_lookup`),
and the bindings are listed in increasing order of the variables.

Applying a substitution replaces a variable once: `{x ↦ y, y ↦ A}` sends `x` to `y`. `walk` follows bindings to the end
of the chain, and `normalized` replaces each binding by the end of its chain. On bindings without a cycle a chain has no
more links than there are bindings, which bounds the walk.
-/
import Refutation.Clause
import Std.Data.ExtTreeMap

namespace Refutation

/-- bindings of variables to terms -/
structure Substitution where
  map : Std.ExtTreeMap String Term
deriving DecidableEq

namespace Substitution

/-- the substitution without bindings -/
def empty : Substitution := ⟨∅⟩

/-- adds a binding; an earlier binding of the variable is replaced -/
def bind (s : Substitution) (x : String) (t : Term) : Substitution := ⟨s.map.insert x t⟩

/-- the term that a variable is bound to -/
def lookup (s : Substitution) (x : String) : Option Term := s.map[x]?

/-- the variable has a binding -/
def isBound (s : Substitution) (x : String) : Bool := (s.lookup x).isSome

/-- the bindings in increasing order of the variables -/
def bindings (s : Substitution) : List (String × Term) := s.map.toList

/-- how many bindings there are -/
def size (s : Substitution) : Nat := s.map.size

/-- there are no bindings -/
def isEmpty (s : Substitution) : Bool := s.map.isEmpty

theorem ext_lookup {s t : Substitution} (h : ∀ x, s.lookup x = t.lookup x) : s = t := by
  cases s
  cases t
  exact congrArg mk (Std.ExtTreeMap.ext_getElem? h)

@[simp] theorem lookup_empty (x : String) : empty.lookup x = none := by simp [empty, lookup]

theorem lookup_bind (s : Substitution) (x y : String) (t : Term) :
    (s.bind x t).lookup y = if x = y then some t else s.lookup y := by
  simp [bind, lookup, Std.ExtTreeMap.getElem?_insert]

theorem mem_bindings {s : Substitution} {x : String} {t : Term} : (x, t) ∈ s.bindings ↔ s.lookup x = some t :=
  Std.ExtTreeMap.mem_toList_iff_getElem?_eq_some

theorem length_bindings (s : Substitution) : s.bindings.length = s.size := Std.ExtTreeMap.length_toList

/-- replaces a bound variable by its term, once -/
def apply (s : Substitution) : Term → Term
  | .var x => (s.lookup x).getD (.var x)
  | .const a => .const a

/-- follows at most `links` bindings -/
def walkFor (s : Substitution) : Nat → Term → Term
  | 0, t => t
  | _ + 1, .const a => .const a
  | links + 1, .var x =>
    match s.lookup x with
    | none => .var x
    | some t => walkFor s links t

/-- follows bindings to a constant or an unbound variable -/
def walk (s : Substitution) (t : Term) : Term := s.walkFor s.size t

/-- every binding replaced by the end of its chain -/
def normalized (s : Substitution) : Substitution := ⟨s.map.map fun x _ => s.walk (.var x)⟩

theorem lookup_normalized (s : Substitution) (x : String) :
    s.normalized.lookup x = (s.lookup x).map fun _ => s.walk (.var x) :=
  Std.ExtTreeMap.getElem?_map

/-- the bindings in order, in braces -/
def text (s : Substitution) : String :=
  "\x7b" ++ String.intercalate ", " (s.bindings.map fun p => p.1 ++ " ↦ " ++ p.2.text) ++ "\x7d"

end Substitution

/-- the substitution applied to every argument -/
def Atom.apply (s : Substitution) (a : Atom) : Atom := { a with args := a.args.map s.apply }

/-- the substitution applied to the atom -/
def Literal.apply (s : Substitution) (l : Literal) : Literal := { l with atom := l.atom.apply s }

/-- the substitution applied to every literal; nothing is done when there are no bindings -/
def Clause.apply (s : Substitution) (c : Clause) : Clause :=
  if s.isEmpty then c else ⟨c.literals.map (Literal.apply s)⟩

end Refutation
