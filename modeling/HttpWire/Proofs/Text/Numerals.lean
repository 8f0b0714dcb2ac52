import HttpWire.Text
import Mathlib

/-! Decimal numerals and their values. -/
namespace HttpWire.Text

/-- One or more ASCII digits, of the value `n`. Zeros may lead. -/
structure IsNumeral (cs : List Char) (n : Nat) : Prop where
  ne_nil : cs ≠ []
  isDigit : ∀ c ∈ cs, c.isDigit = true
  value : Nat.ofDigitChars 10 cs 0 = n

theorem digit?_eq_some {c : Char} (h : c.isDigit = true) : digit? c = some (c.toNat - 48) := by
  have hbounds : '0' ≤ c ∧ c ≤ '9' := by
    simpa [Char.isDigit, Char.le_def] using h
  rw [digit?, if_pos hbounds]

theorem digit?_eq_none {c : Char} (h : ¬ c.isDigit = true) : digit? c = none := by
  have hbounds : ¬ ('0' ≤ c ∧ c ≤ '9') := by
    simpa [Char.isDigit, Char.le_def] using h
  rw [digit?, if_neg hbounds]

theorem digits?_eq_some_iff {cs : List Char} {start n : Nat} : digits? start cs = some n ↔
    (∀ c ∈ cs, c.isDigit = true) ∧ Nat.ofDigitChars 10 cs start = n := by
  induction cs generalizing start with
  | nil => simp [digits?, Nat.ofDigitChars]
  | cons c cs ih =>
    by_cases hc : c.isDigit = true
    · have hstep : digits? start (c :: cs) = digits? (10 * start + (c.toNat - 48)) cs := by
        rw [digits?, digit?_eq_some hc]
        rfl
      rw [hstep, ih, List.forall_mem_cons, Nat.ofDigitChars_cons]
      simp only [hc, true_and]
      rfl
    · have hstep : digits? start (c :: cs) = none := by
        rw [digits?, digit?_eq_none hc]
        rfl
      rw [hstep, List.forall_mem_cons]
      simp [hc]

/-- A numeral is read for its value if that is below the limit. One plus sign in front of it does
not count. -/
theorem numeral?_eq_some_iff {limit n : Nat} {cs : List Char} :
    numeral? limit cs = some n ↔ IsNumeral (dropPlus cs) n ∧ n < limit := by
  rw [numeral?]
  constructor
  · intro h
    split at h
    · simp at h
    · rename_i hne
      obtain ⟨hdigits, hlt⟩ := Option.filter_eq_some_iff.1 h
      obtain ⟨hall, hvalue⟩ := digits?_eq_some_iff.1 hdigits
      exact ⟨⟨hne, hall, hvalue⟩, by simpa using hlt⟩
  · rintro ⟨⟨hne, hall, hvalue⟩, hlt⟩
    rw [if_neg hne, digits?_eq_some_iff.2 ⟨hall, hvalue⟩]
    exact Option.filter_eq_some_iff.2 ⟨rfl, by simpa using hlt⟩

/-- A plus sign is no digit, so at most one of them is dropped. -/
theorem isNumeral_dropPlus_iff {cs : List Char} {n : Nat} : IsNumeral (dropPlus cs) n ↔
    IsNumeral cs n ∨ ∃ digits, cs = '+' :: digits ∧ IsNumeral digits n := by
  fun_cases dropPlus cs with
  | case1 digits =>
    have hplus : ¬ IsNumeral ('+' :: digits) n := fun h =>
      absurd (h.isDigit '+' List.mem_cons_self) (by decide)
    simp [hplus]
  | case2 _ hne =>
    refine ⟨.inl, ?_⟩
    rintro (h | ⟨digits, rfl, -⟩)
    · exact h
    · exact absurd rfl (hne digits)

end HttpWire.Text
