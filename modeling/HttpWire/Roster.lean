import HttpWire.Connection

/-! Rosters: who is next to have a turn. Those that were made ready by the turn of another go before
those that were made ready from outside, but not every time. Those that have used their turn up come
back after the others, the latest of them first. -/
namespace HttpWire

/-- Everyone that is ready for a turn. -/
structure Roster (α : Type) where
  /-- Made ready by somebody's turn, in order. -/
  inner : List α
  /-- Made ready from outside, in order. -/
  outer : List α
  /-- Those that have used their turn up, the latest first. -/
  resting : List α
  /-- How many times it was asked who is next. -/
  asked : Nat

namespace Roster
variable {α : Type}

def empty : Roster α := ⟨[], [], [], 0⟩

/-- Somebody is made ready from outside. -/
def enter (a : α) (r : Roster α) : Roster α := { r with outer := r.outer ++ [a] }

/-- Somebody is made ready by a turn. -/
def join (a : α) (r : Roster α) : Roster α := { r with inner := r.inner ++ [a] }

/-- Somebody has used a turn up. -/
def rest (a : α) (r : Roster α) : Roster α := { r with resting := a :: r.resting }

/-- Those that rest are ready again. -/
def resume (r : Roster α) : Roster α := { r with inner := r.inner ++ r.resting, resting := [] }

/-- Whether nobody is ready, apart from those that rest. -/
def isIdle (r : Roster α) : Bool := r.inner.isEmpty && r.outer.isEmpty

/-- How often those from outside go first: each time in so many. -/
def outerEvery : Nat := 31

def next (r : Roster α) : Option α × Roster α :=
  match r.inner, r.outer with
  | [], [] => (none, { r with asked := r.asked + 1 })
  | a :: inner, [] => (some a, { r with inner, asked := r.asked + 1 })
  | [], a :: outer => (some a, { r with outer, asked := r.asked + 1 })
  | a :: inner, b :: outer =>
    if (r.asked + 1) % outerEvery = 0 then (some b, { r with outer, asked := r.asked + 1 })
    else (some a, { r with inner, asked := r.asked + 1 })

def total (f : α → Nat) (r : Roster α) : Nat :=
  sumOf f r.inner + sumOf f r.outer + sumOf f r.resting

theorem total_join (f : α → Nat) (a : α) (r : Roster α) :
    (r.join a).total f = r.total f + f a := by
  simp only [total, join, sumOf_append, sumOf_cons, sumOf_nil]
  omega

theorem total_rest (f : α → Nat) (a : α) (r : Roster α) :
    (r.rest a).total f = r.total f + f a := by
  simp only [total, rest, sumOf_cons]
  omega

theorem total_resume (f : α → Nat) (r : Roster α) : r.resume.total f = r.total f := by
  simp only [total, resume, sumOf_append, sumOf_nil]
  omega

theorem total_next_none {f : α → Nat} {r r' : Roster α} (h : r.next = (none, r')) :
    r'.total f = r.total f := by
  unfold next at h
  split at h
  · simp only [Prod.mk.injEq, true_and] at h
    subst h
    rfl
  · simp at h
  · simp at h
  · split at h <;> simp at h

theorem total_next_some {f : α → Nat} {r r' : Roster α} {a : α} (h : r.next = (some a, r')) :
    r'.total f + f a = r.total f := by
  unfold next at h
  split at h
  · simp at h
  · rename_i hi ho
    simp only [Prod.mk.injEq, Option.some.injEq] at h
    obtain ⟨rfl, rfl⟩ := h
    simp only [total, hi, sumOf_cons]
    omega
  · rename_i hi ho
    simp only [Prod.mk.injEq, Option.some.injEq] at h
    obtain ⟨rfl, rfl⟩ := h
    simp only [total, ho, sumOf_cons]
    omega
  · rename_i hi ho
    split at h
    · simp only [Prod.mk.injEq, Option.some.injEq] at h
      obtain ⟨rfl, rfl⟩ := h
      simp only [total, ho, sumOf_cons]
      omega
    · simp only [Prod.mk.injEq, Option.some.injEq] at h
      obtain ⟨rfl, rfl⟩ := h
      simp only [total, hi, sumOf_cons]
      omega

/-- Somebody is next as long as anybody is ready. -/
theorem isIdle_of_next_none {r r' : Roster α} (h : r.next = (none, r')) : r.isIdle = true := by
  unfold next at h
  split at h
  · rename_i hi ho
    simp only [isIdle, hi, ho, List.isEmpty_nil, Bool.and_self]
  · simp at h
  · simp at h
  · split at h <;> simp at h

end Roster
end HttpWire
