import HttpWire.Proofs.Header.Characters
import HttpWire.Proofs.Text.Numerals
import HttpWire.Proofs.Text.Trimmed
import HttpWire.Response

/-! The declared length of a body. It follows the grammar of lengths, with two exceptions: a plus
sign in front of a value and blanks of every kind around it do not count. -/
namespace HttpWire.Response
open Text

/-- A length by the grammar: a numeral of 64 bits, with spaces and tabs around it. -/
def IsLength (value : String) (n : Nat) : Prop :=
  ∃ core, Trimmed isSpaceOrTab value.toList core ∧ IsNumeral core n ∧ n < 2 ^ 64

/-- What is taken for a length: a numeral of 64 bits, perhaps with a plus sign, with blanks of any
kind around it. -/
def IsTakenFor (value : String) (n : Nat) : Prop :=
  ∃ core, Trimmed isBlank value.toList core ∧
    (IsNumeral core n ∨ ∃ digits, core = '+' :: digits ∧ IsNumeral digits n) ∧ n < 2 ^ 64

/-- Inside the spaces and tabs no plus sign comes first, and no other blank comes first or last. -/
def IsPlain (value : String) : Prop :=
  let core := trim isSpaceOrTab value.toList
  (∀ c ∈ core.head?, c ≠ '+' ∧ isBlank c = false) ∧ ∀ c ∈ core.getLast?, isBlank c = false

theorem isBlank_of_isSpaceOrTab {c : Char} (h : isSpaceOrTab c = true) : isBlank c = true := by
  simp only [isSpaceOrTab, Bool.or_eq_true, beq_iff_eq] at h
  rcases h with rfl | rfl <;> decide

theorem isBlank_of_isDigit {c : Char} (h : c.isDigit = true) : isBlank c = false := by
  have hbounds := Field.bounds_of_isDigit h
  simp only [isBlank, Bool.or_eq_false_iff, Bool.and_eq_false_iff, decide_eq_false_iff_not,
    beq_eq_false_iff_ne]
  omega

section Values
variable {value : String} {n : Nat}

theorem length?_eq_some_iff : length? value = some n ↔ IsTakenFor value n := by
  have hsize : UInt64.size = 2 ^ 64 := rfl
  rw [length?, numeral?_eq_some_iff, isNumeral_dropPlus_iff, hsize, IsTakenFor]
  constructor
  · rintro ⟨hnumeral, hlt⟩
    exact ⟨_, trim_eq_iff.1 rfl, hnumeral, hlt⟩
  · rintro ⟨core, htrimmed, hnumeral, hlt⟩
    rw [trim_eq_iff.2 htrimmed]
    exact ⟨hnumeral, hlt⟩

/-- The lengths by the grammar are the plain values among those that are taken for lengths. -/
theorem isLength_iff : IsLength value n ↔ IsTakenFor value n ∧ IsPlain value := by
  constructor
  · rintro ⟨core, htrimmed, hnumeral, hlt⟩
    have hfirst : ∀ c ∈ core.head?, c.isDigit = true :=
      fun c hc => hnumeral.isDigit c (List.mem_of_mem_head? hc)
    have hlast : ∀ c ∈ core.getLast?, isBlank c = false :=
      fun c hc => isBlank_of_isDigit (hnumeral.isDigit c (List.mem_of_mem_getLast? hc))
    have hwide := htrimmed.widen (fun _ => isBlank_of_isSpaceOrTab)
      (fun c hc => isBlank_of_isDigit (hfirst c hc)) hlast
    refine ⟨⟨core, hwide, .inl hnumeral, hlt⟩, ?_⟩
    rw [IsPlain, trim_eq_iff.2 htrimmed]
    refine ⟨fun c hc => ⟨?_, isBlank_of_isDigit (hfirst c hc)⟩, hlast⟩
    rintro rfl
    exact absurd (hfirst _ hc) (by decide)
  · rintro ⟨⟨core, htrimmed, hnumeral, hlt⟩, hfirst, hlast⟩
    have hspaces := trim_eq_iff.1 (rfl : trim isSpaceOrTab value.toList = _)
    have hwide := hspaces.widen (fun _ => isBlank_of_isSpaceOrTab)
      (fun c hc => (hfirst c hc).2) hlast
    rw [← htrimmed.unique hwide] at hspaces hfirst
    obtain hbare | ⟨digits, rfl, -⟩ := hnumeral
    · exact ⟨core, hspaces, hbare, hlt⟩
    · exact absurd rfl (hfirst '+' rfl).1

end Values

/-- Several values declare a length together if each of them is read as it. -/
theorem declaredLength_eq_some_iff_length? {headers : HeaderMap} {n : Nat} :
    declaredLength headers = some n ↔ headers.getAll "Content-Length" ≠ [] ∧
      ∀ value ∈ headers.getAll "Content-Length", length? value = some n := by
  rw [declaredLength]
  cases headers.getAll "Content-Length" with
  | nil => simp
  | cons value values =>
    have hall : (values.map length?).all (· == length? value) = true ↔
        ∀ other ∈ values, length? other = length? value := by
      simp [List.all_eq_true]
    rw [List.map_cons, List.forall_mem_cons]
    dsimp only
    split
    · rename_i hagree
      have hsame := hall.1 hagree
      refine ⟨fun hn => ⟨List.cons_ne_nil _ _, hn, fun other hother => ?_⟩, fun h => h.2.1⟩
      exact (hsame other hother).trans hn
    · rename_i hdiffer
      simp only [reduceCtorEq, false_iff]
      rintro ⟨-, hn, hothers⟩
      exact hdiffer (hall.2 fun other hother => (hothers other hother).trans hn.symm)

/-- A length is declared if there are values and all are taken for it. All of them are that length
by the grammar if and only if, besides, all are plain. -/
theorem declaredLength_eq_some_iff (headers : HeaderMap) (n : Nat) :
    let values := headers.getAll "Content-Length"
    (declaredLength headers = some n ↔ values ≠ [] ∧ ∀ value ∈ values, IsTakenFor value n) ∧
      ((values ≠ [] ∧ ∀ value ∈ values, IsLength value n) ↔
        declaredLength headers = some n ∧ ∀ value ∈ values, IsPlain value) := by
  intro values
  have htaken : declaredLength headers = some n ↔
      values ≠ [] ∧ ∀ value ∈ values, IsTakenFor value n := by
    rw [declaredLength_eq_some_iff_length?]
    simp only [length?_eq_some_iff]
    rfl
  refine ⟨htaken, ?_⟩
  rw [htaken]
  simp only [isLength_iff]
  constructor
  · rintro ⟨hne, hall⟩
    exact ⟨⟨hne, fun value hv => (hall value hv).1⟩, fun value hv => (hall value hv).2⟩
  · rintro ⟨⟨hne, htaken⟩, hplain⟩
    exact ⟨hne, fun value hv => ⟨htaken value hv, hplain value hv⟩⟩

/-- A plus sign is in front of the digits. -/
theorem declaredLength_of_plus_sign :
    ∃ headers, HeaderMap.ofPairs [("Content-Length", "+5")] = .ok headers ∧
      headers.getAll "Content-Length" = ["+5"] ∧ declaredLength headers = some 5 ∧
      ¬ IsLength "+5" 5 := by
  have hread : (HeaderMap.ofPairs [("Content-Length", "+5")]).toOption.map
      (fun headers => (headers.getAll "Content-Length", declaredLength headers)) =
        some (["+5"], some 5) := by decide +kernel
  cases hbuild : HeaderMap.ofPairs [("Content-Length", "+5")] with
  | error e => simp [hbuild, Except.toOption] at hread
  | ok headers =>
    rw [hbuild] at hread
    obtain ⟨hvalues, hlength⟩ := Prod.mk.inj (Option.some.inj hread)
    refine ⟨headers, rfl, hvalues, hlength, fun h => ?_⟩
    have hplain := (isLength_iff.1 h).2
    exact (hplain.1 '+' rfl).1 rfl

end HttpWire.Response
