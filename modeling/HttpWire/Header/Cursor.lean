import HttpWire.Header.Map

/-! A walk over the pairs of a header map, one value after the other. -/
namespace HttpWire
namespace HeaderMap

/-- A place in a walk: the name it has come to, with the values still to come, and the entries after
that. -/
structure Cursor where
  current : Option (String × List String)
  entries : List Entry

/-- A walk from the first name on. -/
def cursor (m : HeaderMap) : Cursor := ⟨none, m.entries⟩

namespace Cursor

/-- The next pair. A name without more values gives way to the next entry. -/
def next? : Cursor → Option ((String × String) × Cursor)
  | ⟨some (name, value :: values), entries⟩ =>
    some ((name, value), ⟨some (name, values), entries⟩)
  | ⟨_, e :: entries⟩ => next? ⟨some (e.name, e.values), entries⟩
  | ⟨_, []⟩ => none
termination_by c => c.entries.length

/-- The pairs still to come. -/
def remaining (c : Cursor) : List (String × String) :=
  (c.current.map fun (name, values) => values.map (name, ·)).getD [] ++
    c.entries.flatMap Entry.pairs

theorem remaining_of_spent {current : Option (String × List String)} {entries : List Entry}
    (h : ∀ name value values, current = some (name, value :: values) → False) :
    remaining ⟨current, entries⟩ = entries.flatMap Entry.pairs := by
  match current with
  | none => rfl
  | some (name, []) => rfl
  | some (name, value :: values) => exact (h name value values rfl).elim

/-- A step of the walk takes the first of the pairs still to come. -/
theorem remaining_of_next? {c c' : Cursor} {pair : String × String}
    (h : c.next? = some (pair, c')) : c.remaining = pair :: c'.remaining := by
  fun_induction next? c with
  | case1 name value values entries =>
    obtain ⟨rfl, rfl⟩ := Prod.mk.inj (Option.some.inj h)
    rfl
  | case2 current e entries hspent ih =>
    rw [← ih h, remaining_of_spent hspent]
    rfl
  | case3 => simp at h

/-- The pairs that come, step by step, until there are no more. -/
def toList (c : Cursor) : List (String × String) :=
  match h : c.next? with
  | none => []
  | some (pair, c') =>
    have : c'.remaining.length < c.remaining.length := by
      rw [remaining_of_next? h]
      exact Nat.lt_succ_self _
    pair :: c'.toList
termination_by c.remaining.length

theorem remaining_of_next?_eq_none {c : Cursor} (h : c.next? = none) : c.remaining = [] := by
  fun_induction next? c with
  | case1 => simp at h
  | case2 current e entries hspent ih =>
    rw [← ih h, remaining_of_spent hspent]
    rfl
  | case3 current hspent => exact remaining_of_spent hspent

/-- The walk comes past every pair. -/
theorem toList_eq (c : Cursor) : c.toList = c.remaining := by
  fun_induction toList c with
  | case1 c h => exact (remaining_of_next?_eq_none h).symm
  | case2 c pair c' h hlt ih => rw [remaining_of_next? h, ih]

end Cursor
end HeaderMap
end HttpWire
