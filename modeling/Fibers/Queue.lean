/-!
# First-in-first-out queues

A queue is a pair of lists: elements leave at the head of `front` and arrive at the head of `back`.
`toList` is the view in which every operation is stated; the oldest element comes first.
-/

namespace Fibers

/-- A queue whose oldest element is at the front. -/
structure Queue (α : Type) where
  front : List α := []
  back : List α := []

namespace Queue

variable {α : Type}

/-- The queue without elements. -/
def empty : Queue α := {}

instance : Inhabited (Queue α) := ⟨empty⟩

/-- The elements, oldest first. -/
def toList (q : Queue α) : List α := q.front ++ q.back.reverse

def size (q : Queue α) : Nat := q.front.length + q.back.length

def isEmpty (q : Queue α) : Bool := q.front.isEmpty && q.back.isEmpty

/-- Add an element behind all others. -/
def push (q : Queue α) (a : α) : Queue α := { q with back := a :: q.back }

/-- Take the oldest element. -/
def popFront? (q : Queue α) : Option (α × Queue α) :=
  match q.front with
  | a :: rest => some (a, ⟨rest, q.back⟩)
  | [] =>
    match q.back.reverse with
    | a :: rest => some (a, ⟨rest, []⟩)
    | [] => none

/-- Take the newest element. -/
def popBack? (q : Queue α) : Option (α × Queue α) :=
  match q.back with
  | a :: rest => some (a, ⟨q.front, rest⟩)
  | [] =>
    match q.front.reverse with
    | a :: rest => some (a, ⟨[], rest⟩)
    | [] => none

/-- Take from the front or from the back. -/
def pop? (q : Queue α) (newest : Bool) : Option (α × Queue α) :=
  if newest then q.popBack? else q.popFront?

@[simp] theorem toList_empty : (empty : Queue α).toList = [] := rfl

@[simp] theorem toList_push (q : Queue α) (a : α) : (q.push a).toList = q.toList ++ [a] := by
  simp [push, toList]

@[simp] theorem length_toList (q : Queue α) : q.toList.length = q.size := by
  simp [toList, size]

theorem isEmpty_iff (q : Queue α) : q.isEmpty = true ↔ q.toList = [] := by
  simp [isEmpty, toList]

theorem popFront?_eq_none_iff (q : Queue α) : q.popFront? = none ↔ q.toList = [] := by
  obtain ⟨front, back⟩ := q
  unfold popFront? toList
  cases front with
  | cons a rest => simp
  | nil => cases h : back.reverse <;> simp

theorem toList_of_popFront? {q rest : Queue α} {a : α} (h : q.popFront? = some (a, rest)) :
    q.toList = a :: rest.toList := by
  obtain ⟨front, back⟩ := q
  unfold popFront? at h
  cases front with
  | cons b tail => simp at h; obtain ⟨rfl, rfl⟩ := h; rfl
  | nil =>
    cases hb : back.reverse with
    | nil => simp [hb] at h
    | cons b tail =>
      simp only [hb, Option.some.injEq, Prod.mk.injEq] at h
      obtain ⟨rfl, rfl⟩ := h
      simp [toList, hb]

theorem toList_of_popBack? {q rest : Queue α} {a : α} (h : q.popBack? = some (a, rest)) :
    q.toList = rest.toList ++ [a] := by
  obtain ⟨front, back⟩ := q
  unfold popBack? at h
  cases back with
  | cons b tail => simp at h; obtain ⟨rfl, rfl⟩ := h; simp [toList]
  | nil =>
    cases hb : front.reverse with
    | nil => simp [hb] at h
    | cons b tail =>
      simp only [hb, Option.some.injEq, Prod.mk.injEq] at h
      obtain ⟨rfl, rfl⟩ := h
      have := congrArg List.reverse hb
      simp at this
      simp [toList, this]

end Queue

end Fibers
