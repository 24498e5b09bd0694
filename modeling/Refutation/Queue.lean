/-
Queues that take items at both ends and give them back at the front.

The items at the back are kept in reverse, so that adding one does not copy the others. `toList` is the queue as a list,
from front to back; each operation is described by what it does to that list.
-/
namespace Refutation

/-- a line of items; those at the back are kept in reverse -/
structure Queue (α : Type) where
  front : List α := []
  back : List α := []
deriving DecidableEq, Repr

namespace Queue

variable {α : Type}

/-- the queue without items -/
def empty : Queue α := {}

/-- the items from front to back -/
def toList (q : Queue α) : List α := q.front ++ q.back.reverse

/-- there are no items -/
def isEmpty (q : Queue α) : Bool := q.front.isEmpty && q.back.isEmpty

/-- adds an item at the front -/
def pushFront (q : Queue α) (a : α) : Queue α := { q with front := a :: q.front }

/-- adds an item at the back -/
def pushBack (q : Queue α) (a : α) : Queue α := { q with back := a :: q.back }

/-- takes the item at the front -/
def pop? (q : Queue α) : Option (α × Queue α) :=
  match q.front with
  | a :: rest => some (a, { q with front := rest })
  | [] =>
    match q.back.reverse with
    | [] => none
    | a :: rest => some (a, ⟨rest, []⟩)

@[simp] theorem toList_empty : (empty : Queue α).toList = [] := rfl

@[simp] theorem toList_pushFront (q : Queue α) (a : α) : (q.pushFront a).toList = a :: q.toList := rfl

@[simp] theorem toList_pushBack (q : Queue α) (a : α) : (q.pushBack a).toList = q.toList ++ [a] := by
  simp [toList, pushBack]

theorem isEmpty_iff {q : Queue α} : q.isEmpty = true ↔ q.toList = [] := by
  simp [isEmpty, toList]

theorem pop?_eq_none_iff {q : Queue α} : q.pop? = none ↔ q.toList = [] := by
  obtain ⟨front, back⟩ := q
  cases front with
  | cons a rest => simp [pop?, toList]
  | nil =>
    simp only [pop?, toList, List.nil_append]
    cases back.reverse <;> simp

theorem toList_of_pop? {q rest : Queue α} {a : α} (h : q.pop? = some (a, rest)) : q.toList = a :: rest.toList := by
  obtain ⟨front, back⟩ := q
  cases front with
  | cons b others =>
    simp only [pop?, Option.some.injEq, Prod.mk.injEq] at h
    obtain ⟨rfl, rfl⟩ := h
    rfl
  | nil =>
    simp only [pop?] at h
    cases hback : back.reverse with
    | nil => simp [hback] at h
    | cons b others =>
      simp only [hback, Option.some.injEq, Prod.mk.injEq] at h
      obtain ⟨rfl, rfl⟩ := h
      simp [toList, hback]

end Queue

end Refutation
