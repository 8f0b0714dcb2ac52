import HttpWire.Octets
import Mathlib

/-! Line ends by their positions. They never overlap, so the first one cuts off the first line. Two
in a row end a block of lines. -/
namespace HttpWire.Octets

/-- A line end starts at position `i`. -/
def LineEndAt (b : Octets) (i : Nat) : Prop := b[i]? = some 13 ∧ b[i + 1]? = some 10

theorem lineEndAt_drop {b : Octets} {k i : Nat} : LineEndAt (b.drop k) i ↔ LineEndAt b (k + i) := by
  simp only [LineEndAt, List.getElem?_drop, Nat.add_assoc]

theorem LineEndAt.lt {b : Octets} {i : Nat} (h : LineEndAt b i) : i + 1 < b.length := by
  obtain ⟨hlt, -⟩ := List.getElem?_eq_some_iff.1 h.2
  exact hlt

/-- No line end starts between the two octets of another. -/
theorem LineEndAt.not_succ {b : Octets} {i : Nat} (h : LineEndAt b i) : ¬ LineEndAt b (i + 1) := by
  intro h'
  have : some (10 : UInt8) = some 13 := h.2.symm.trans h'.1
  simp at this

theorem lineEndAt_append_left {a b : Octets} {i : Nat} (hi : i + 1 < a.length) :
    LineEndAt (a ++ b) i ↔ LineEndAt a i := by
  have h₀ : (a ++ b)[i]? = a[i]? := List.getElem?_append_left (by omega)
  have h₁ : (a ++ b)[i + 1]? = a[i + 1]? := List.getElem?_append_left hi
  rw [LineEndAt, LineEndAt, h₀, h₁]

theorem lineEndAt_append_right {a b : Octets} {i : Nat} :
    LineEndAt (a ++ b) (a.length + i) ↔ LineEndAt b i := by
  rw [← lineEndAt_drop, List.drop_left]

theorem lineEndAt_take {b : Octets} {n i : Nat} :
    LineEndAt (b.take n) i ↔ i + 1 < n ∧ LineEndAt b i := by
  constructor
  · intro h
    have hlt := h.lt
    rw [List.length_take] at hlt
    refine ⟨by omega, ?_⟩
    rw [LineEndAt, List.getElem?_take_of_lt (by omega), List.getElem?_take_of_lt (by omega)] at h
    exact h
  · rintro ⟨hn, h⟩
    rw [LineEndAt, List.getElem?_take_of_lt (by omega), List.getElem?_take_of_lt hn]
    exact h

theorem lineEndAt_crlf_append (b : Octets) : LineEndAt (crlf ++ b) 0 := ⟨rfl, rfl⟩

theorem crlfIndex?_eq_none_iff {b : Octets} : crlfIndex? b = none ↔ ∀ i, ¬ LineEndAt b i := by
  fun_induction crlfIndex? b with
  | case1 => simp [LineEndAt]
  | case2 => simp [LineEndAt]
  | case3 a b rest h =>
    simp only [reduceCtorEq, false_iff]
    exact fun hb => hb 0 (by simp [LineEndAt, h])
  | case4 a b rest h ih =>
    rw [Option.map_eq_none_iff, ih]
    constructor
    · intro hb i
      cases i with
      | zero => simpa [LineEndAt] using h
      | succ i => exact hb i
    · exact fun hb i => hb (i + 1)

theorem crlfIndex?_eq_some_iff {b : Octets} {i : Nat} :
    crlfIndex? b = some i ↔ LineEndAt b i ∧ ∀ j < i, ¬ LineEndAt b j := by
  fun_induction crlfIndex? b generalizing i with
  | case1 => simp [LineEndAt]
  | case2 => simp [LineEndAt]
  | case3 a b rest h =>
    have h₀ : LineEndAt (a :: b :: rest) 0 := by simp [LineEndAt, h]
    constructor
    · rintro ⟨⟩
      exact ⟨h₀, fun j hj => absurd hj (by omega)⟩
    · rintro ⟨-, hi⟩
      by_cases hz : i = 0
      · rw [hz]
      · exact absurd h₀ (hi 0 (by omega))
  | case4 a b rest h ih =>
    have h₀ : ¬ LineEndAt (a :: b :: rest) 0 := by simpa [LineEndAt] using h
    rw [Option.map_eq_some_iff]
    constructor
    · rintro ⟨k, hk, rfl⟩
      obtain ⟨hat, hlt⟩ := ih.1 hk
      refine ⟨hat, fun j hj => ?_⟩
      cases j with
      | zero => exact h₀
      | succ j => exact hlt j (by omega)
    · rintro ⟨hat, hlt⟩
      cases i with
      | zero => exact absurd hat h₀
      | succ i => exact ⟨i, ih.2 ⟨hat, fun j hj => hlt (j + 1) (by omega)⟩, rfl⟩

/-- A line end that is there stays the first one, whatever follows. -/
theorem crlfIndex?_append_of_some {a : Octets} {i : Nat} (h : crlfIndex? a = some i) (b : Octets) :
    crlfIndex? (a ++ b) = some i := by
  obtain ⟨hat, hlt⟩ := crlfIndex?_eq_some_iff.1 h
  have hi := hat.lt
  refine crlfIndex?_eq_some_iff.2 ⟨(lineEndAt_append_left hi).2 hat, fun j hj => ?_⟩
  rw [lineEndAt_append_left (by omega)]
  exact hlt j hj

/-- A line end that is the first one is so without what follows it. -/
theorem crlfIndex?_take_of_some {b : Octets} {i : Nat} (h : crlfIndex? b = some i) :
    crlfIndex? (b.take (i + 2)) = some i := by
  obtain ⟨hat, hlt⟩ := crlfIndex?_eq_some_iff.1 h
  refine crlfIndex?_eq_some_iff.2 ⟨lineEndAt_take.2 ⟨by omega, hat⟩, fun j hj hat' => ?_⟩
  exact hlt j hj (lineEndAt_take.1 hat').2

/-- Where there is none, the first one that comes starts no earlier than at the last octet. -/
theorem length_le_of_crlfIndex?_append {a b : Octets} {i : Nat} (ha : crlfIndex? a = none)
    (h : crlfIndex? (a ++ b) = some i) : a.length ≤ i + 1 := by
  have hat := (crlfIndex?_eq_some_iff.1 h).1
  by_cases hi : i + 1 < a.length
  · exact absurd ((lineEndAt_append_left hi).1 hat) (crlfIndex?_eq_none_iff.1 ha i)
  · omega

/-- The first line, its end, and what follows. -/
theorem eq_line_append {b : Octets} {i : Nat} (h : crlfIndex? b = some i) :
    b = b.take i ++ crlf ++ b.drop (i + 2) := by
  obtain ⟨h₀, h₁⟩ := (crlfIndex?_eq_some_iff.1 h).1
  obtain ⟨hlt, h₁⟩ := List.getElem?_eq_some_iff.1 h₁
  obtain ⟨hi, h₀⟩ := List.getElem?_eq_some_iff.1 h₀
  have hdrop : b.drop i = crlf ++ b.drop (i + 2) := by
    rw [List.drop_eq_getElem_cons hi, List.drop_eq_getElem_cons hlt, h₀, h₁]
    rfl
  rw [List.append_assoc, ← hdrop, List.take_append_drop]

/-- No line end starts inside. -/
def Unbroken (line : Octets) : Prop := ∀ i, ¬ LineEndAt line i

theorem unbroken_of_not_mem {line : Octets} (h : 13 ∉ line) : Unbroken line :=
  fun _ hat => h (List.mem_of_getElem? hat.1)

/-- A line end that follows an unbroken line is the first one. -/
theorem Unbroken.crlfIndex?_append {line : Octets} (h : Unbroken line) (rest : Octets) :
    crlfIndex? (line ++ (crlf ++ rest)) = some line.length := by
  refine crlfIndex?_eq_some_iff.2 ⟨lineEndAt_append_right.2 (lineEndAt_crlf_append rest), ?_⟩
  intro j hj hat
  by_cases hin : j + 1 < line.length
  · exact h j ((lineEndAt_append_left hin).1 hat)
  -- the octet after the line is a carriage return
  · have hlast : j + 1 = line.length := by omega
    have hcr : (line ++ (crlf ++ rest))[j + 1]? = some 13 := by
      rw [hlast, List.getElem?_append_right (Nat.le_refl _), Nat.sub_self]
      rfl
    have hboth : some (13 : UInt8) = some 10 := hcr.symm.trans hat.2
    simp at hboth

/-- Nothing in front of the first line end breaks it. -/
theorem unbroken_take {b : Octets} {i : Nat} (h : crlfIndex? b = some i) : Unbroken (b.take i) := by
  intro j hat
  obtain ⟨hj, hat⟩ := lineEndAt_take.1 hat
  exact (crlfIndex?_eq_some_iff.1 h).2 j (by omega) hat

/-- Octets are unbroken, or there is a first line. -/
theorem unbroken_or_eq_append (b : Octets) :
    Unbroken b ∨ ∃ line rest, Unbroken line ∧ b = line ++ (crlf ++ rest) := by
  cases h : crlfIndex? b with
  | none => exact .inl (crlfIndex?_eq_none_iff.1 h)
  | some i =>
    refine .inr ⟨b.take i, b.drop (i + 2), unbroken_take h, ?_⟩
    rw [← List.append_assoc]
    exact eq_line_append h

theorem length_drop_crlfIndex?_lt {b : Octets} {i : Nat} (h : crlfIndex? b = some i) :
    (b.drop (i + 2)).length < b.length := by
  have hlt := crlfIndex?_lt h
  rw [List.length_drop]
  omega

/-- A line end starts at position `i`, and the line after it is blank. -/
def BlankLineAt (b : Octets) (i : Nat) : Prop := LineEndAt b i ∧ LineEndAt b (i + 2)

/-- The first blank line is the one after the line end at position `i`. -/
structure FirstBlankAt (b : Octets) (i : Nat) : Prop where
  at_pos : BlankLineAt b i
  not_before : ∀ j < i, ¬ BlankLineAt b j

/-- No blank line comes after a line end. -/
def Blankless (b : Octets) : Prop := ∀ i, ¬ BlankLineAt b i

theorem FirstBlankAt.add_lt {b : Octets} {i : Nat} (h : FirstBlankAt b i) : i + 3 < b.length :=
  h.at_pos.2.lt

theorem blankLineAt_drop {b : Octets} {k i : Nat} :
    BlankLineAt (b.drop k) i ↔ BlankLineAt b (k + i) := by
  rw [BlankLineAt, BlankLineAt, lineEndAt_drop, lineEndAt_drop, Nat.add_assoc]

theorem FirstBlankAt.of_drop {b : Octets} {k i : Nat} (h : FirstBlankAt (b.drop k) i)
    (hk : ∀ j < k, ¬ BlankLineAt b j) : FirstBlankAt b (k + i) := by
  constructor
  · exact blankLineAt_drop.1 h.at_pos
  · intro j hj hat
    by_cases hjk : j < k
    · exact hk j hjk hat
    · refine h.not_before (j - k) (by omega) (blankLineAt_drop.2 ?_)
      rw [Nat.add_sub_cancel' (Nat.not_lt.1 hjk)]
      exact hat

theorem not_lineEndAt_of_lt {line : Octets} (hline : 13 ∉ line) (rest : Octets) {j : Nat}
    (hj : j < line.length) : ¬ LineEndAt (line ++ rest) j := by
  rintro ⟨hat, -⟩
  rw [List.getElem?_append_left hj] at hat
  exact hline (List.mem_of_getElem? hat)

theorem firstBlankAt_line {line : Octets} (hline : 13 ∉ line) (rest : Octets) :
    FirstBlankAt (line ++ (crlf ++ (crlf ++ rest))) line.length := by
  constructor
  · exact ⟨lineEndAt_append_right.2 (lineEndAt_crlf_append _), lineEndAt_append_right.2 ⟨rfl, rfl⟩⟩
  · exact fun j hj hat => not_lineEndAt_of_lt hline _ hj hat.1

/-- A line end in front is not part of the first blank line if the line after it is not blank. -/
theorem FirstBlankAt.crlf_append {b : Octets} {i : Nat} (h : FirstBlankAt b i)
    (hb : ¬ LineEndAt b 0) : FirstBlankAt (crlf ++ b) (2 + i) := by
  refine FirstBlankAt.of_drop (b := crlf ++ b) (k := 2) h fun j hj hat => ?_
  match j with
  | 0 => exact hb hat.2
  | 1 => exact (lineEndAt_crlf_append b).not_succ hat.1

theorem blankless_of_unbroken {b : Octets} (h : Unbroken b) : Blankless b :=
  fun i hat => h i hat.1

theorem Blankless.of_drop {b : Octets} {k : Nat} (h : Blankless (b.drop k))
    (hk : ∀ j < k, ¬ LineEndAt b j) : Blankless b := by
  intro i hat
  by_cases hik : i < k
  · exact hk i hik hat.1
  · refine h (i - k) (blankLineAt_drop.2 ?_)
    rw [Nat.add_sub_cancel' (Nat.not_lt.1 hik)]
    exact hat

theorem Blankless.crlf_append {b : Octets} (h : Blankless b) (hb : ¬ LineEndAt b 0) :
    Blankless (crlf ++ b) := by
  intro i hat
  match i with
  | 0 => exact hb hat.2
  | 1 => exact (lineEndAt_crlf_append b).not_succ hat.1
  | i + 2 =>
    refine h i (blankLineAt_drop (b := crlf ++ b) (k := 2).2 ?_)
    rw [Nat.add_comm]
    exact hat

theorem FirstBlankAt.line_append {line rest : Octets} {i : Nat} (h : FirstBlankAt rest i)
    (hline : 13 ∉ line) (hrest : ¬ LineEndAt rest 0) :
    FirstBlankAt (line ++ (crlf ++ rest)) (line.length + (2 + i)) := by
  refine FirstBlankAt.of_drop (k := line.length) ?_ fun j hj hat => ?_
  · rw [List.drop_left]
    exact h.crlf_append hrest
  · exact not_lineEndAt_of_lt hline _ hj hat.1

/-- Octets with one line end, which comes last, and without other carriage returns or line
feeds. -/
def IsLine (packet : Octets) : Prop := ∃ text, packet = text ++ crlf ∧ 13 ∉ text ∧ 10 ∉ text

/-- Lines with their ends. -/
def terminated (lines : List Octets) : Octets := lines.flatMap (· ++ crlf)

theorem terminated_cons (line : Octets) (lines : List Octets) :
    terminated (line :: lines) = line ++ (crlf ++ terminated lines) := by
  rw [terminated, List.flatMap_cons, List.append_assoc]
  rfl

theorem terminated_append (lines lines' : List Octets) :
    terminated (lines ++ lines') = terminated lines ++ terminated lines' :=
  List.flatMap_append

theorem terminated_concat_append (lines : List Octets) (line rest : Octets) :
    terminated (lines ++ [line]) ++ rest = terminated lines ++ (line ++ (crlf ++ rest)) := by
  simp [terminated]

/-- Lines without carriage returns are told apart by their ends. -/
theorem line_append_inj {line line' rest rest' : Octets} (hline : 13 ∉ line) (hline' : 13 ∉ line')
    (h : line ++ (crlf ++ rest) = line' ++ (crlf ++ rest')) : line = line' ∧ rest = rest' := by
  have hindex := (unbroken_of_not_mem hline).crlfIndex?_append rest
  have hindex' := (unbroken_of_not_mem hline').crlfIndex?_append rest'
  rw [h, hindex', Option.some.injEq] at hindex
  obtain ⟨hsame, hends⟩ := List.append_inj h hindex.symm
  exact ⟨hsame, List.append_cancel_left hends⟩

/-- Lines without carriage returns, none of them blank, are told from what follows a blank line. -/
theorem terminated_append_inj {lines lines' : List Octets} {rest rest' : Octets}
    (hlines : ∀ l ∈ lines, l ≠ [] ∧ 13 ∉ l) (hlines' : ∀ l ∈ lines', l ≠ [] ∧ 13 ∉ l)
    (h : terminated lines ++ (crlf ++ rest) = terminated lines' ++ (crlf ++ rest')) :
    lines = lines' ∧ rest = rest' := by
  induction lines generalizing lines' with
  | nil =>
    cases lines' with
    | nil => exact ⟨rfl, List.append_cancel_left h⟩
    | cons line' lines' =>
      obtain ⟨hne, hclean⟩ := hlines' line' List.mem_cons_self
      rw [terminated_cons, List.append_assoc, List.append_assoc] at h
      have hnone : (13 : UInt8) ∉ ([] : Octets) := List.not_mem_nil
      obtain ⟨hnil, -⟩ := line_append_inj hnone hclean h
      exact absurd hnil.symm hne
  | cons line lines ih =>
    obtain ⟨⟨hne, hclean⟩, htail⟩ := List.forall_mem_cons.1 hlines
    rw [terminated_cons, List.append_assoc, List.append_assoc] at h
    cases lines' with
    | nil =>
      have hnone : (13 : UInt8) ∉ ([] : Octets) := List.not_mem_nil
      obtain ⟨hnil, -⟩ := line_append_inj hclean hnone h
      exact absurd hnil hne
    | cons line' lines' =>
      obtain ⟨⟨-, hclean'⟩, htail'⟩ := List.forall_mem_cons.1 hlines'
      rw [terminated_cons, List.append_assoc, List.append_assoc] at h
      obtain ⟨rfl, hafter⟩ := line_append_inj hclean hclean' h
      obtain ⟨rfl, hrest⟩ := ih htail htail' hafter
      exact ⟨rfl, hrest⟩

/-- Lines without carriage returns, none of them blank, reach to the first blank line. -/
theorem firstBlankAt_terminated {line : Octets} {lines : List Octets}
    (h : ∀ l ∈ line :: lines, l ≠ [] ∧ 13 ∉ l) (rest : Octets) :
    ∃ i, FirstBlankAt (terminated (line :: lines) ++ (crlf ++ rest)) i ∧
      i + 2 = (terminated (line :: lines)).length := by
  induction lines generalizing line with
  | nil =>
    refine ⟨line.length, ?_, ?_⟩
    · rw [terminated_cons, List.append_assoc, List.append_assoc]
      exact firstBlankAt_line (h line List.mem_cons_self).2 rest
    · rw [terminated_cons, List.length_append]
      rfl
  | cons next lines ih =>
    obtain ⟨i, hi, hlen⟩ := ih fun l hl => h l (List.mem_cons_of_mem _ hl)
    have hnext := h next (List.mem_cons_of_mem _ List.mem_cons_self)
    refine ⟨line.length + (2 + i), ?_, ?_⟩
    · rw [terminated_cons, List.append_assoc, List.append_assoc]
      refine hi.line_append (h line List.mem_cons_self).2 ?_
      rw [terminated_cons, List.append_assoc]
      exact not_lineEndAt_of_lt hnext.2 _ (List.length_pos_iff.2 hnext.1)
    · rw [terminated_cons, List.length_append, List.length_append, ← hlen, crlf]
      simp only [List.length_cons, List.length_nil]
      omega

end HttpWire.Octets
