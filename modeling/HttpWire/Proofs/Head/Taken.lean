import HttpWire.Proofs.Head.Decoding

/-! Lines that are taken in before one is refused. -/
namespace HttpWire.Head.Decoder
open Octets (terminated crlf latin1 Unbroken)

/-- Lines that take a decoder from one state to another, none of them refused and none blank. -/
inductive Reads : Decoder → List Octets → Decoder → Prop
  | nil (d : Decoder) : Reads d [] d
  | cons {d d₁ d' : Decoder} {line : Octets} {lines : List Octets} (fits : Fits d.maxLine line)
    (take : d.takeLine (latin1 line) = (.ok none, d₁)) (rest : Reads d₁ lines d') :
    Reads d (line :: lines) d'

/-- The first line is too long, ended or not. -/
inductive Exceeds (maxLine : Nat) : Octets → Prop
  | ended {line : Octets} (unbroken : Unbroken line) (long : maxLine < line.length)
    (rest : Octets) : Exceeds maxLine (line ++ (crlf ++ rest))
  | endless {tail : Octets} (unbroken : Unbroken tail) (long : maxLine < tail.length) :
    Exceeds maxLine tail

variable {d d' : Decoder} {lines : List Octets} {b rest : Octets} {e : HeadError}

theorem Reads.fits (h : Reads d lines d') : ∀ line ∈ lines, Fits d.maxLine line := by
  induction h with
  | nil d => exact List.forall_mem_nil _
  | cons fits take rest ih =>
    rw [(takes_takeLine take).maxLine_eq] at ih
    exact List.forall_mem_cons.2 ⟨fits, ih⟩

/-- What follows such lines is decoded as if they had been taken in before. -/
theorem Reads.rescan_append (h : Reads d lines d') (hf : d.finished = false) (rest : Octets) :
    d.rescan (terminated lines ++ rest) = d'.rescan rest := by
  induction h with
  | nil d => rfl
  | @cons d d₁ d' line lines fits take _ ih =>
    have hf₁ : d₁.finished = false := (takes_takeLine take).finished_eq.trans hf
    have hline := rescan_fits hf fits (terminated lines ++ rest)
    rw [take] at hline
    rw [Octets.terminated_cons, List.append_assoc, List.append_assoc, hline]
    exact ih hf₁

/-- What is in front of the first line end is a line. -/
theorem first_line_of_crlfIndex? {i : Nat} (h : Octets.crlfIndex? b = some i) :
    Unbroken (b.take i) ∧ (b.take i).length = i ∧ b = b.take i ++ (crlf ++ b.drop (i + 2)) := by
  have hlt := Octets.crlfIndex?_lt h
  refine ⟨Octets.unbroken_take h, ?_, ?_⟩
  · rw [List.length_take]
    omega
  · rw [← List.append_assoc]
    exact Octets.eq_line_append h

/-- Why decoding fails, told by the lines at hand. -/
inductive Blames (d d' : Decoder) (lines : List Octets) (b rest : Octets) : HeadError → Prop
  | tooLong (split : b = terminated lines ++ rest) (exceeds : Exceeds d.maxLine rest) :
    Blames d d' lines b rest (.lineTooLong d.maxLine)
  | line {line : Octets} {e : HeadError} (split : b = terminated lines ++ (line ++ (crlf ++ rest)))
    (fits : Fits d.maxLine line) (fault : d'.takeLine (latin1 line) = (.error e, d')) :
    Blames d d' lines b rest e

theorem Blames.cons {d₁ : Decoder} {line : Octets} (h : Blames d₁ d' lines b rest e)
    (hmax : d₁.maxLine = d.maxLine) :
    Blames d d' (line :: lines) (line ++ (crlf ++ b)) rest e := by
  cases h with
  | tooLong split exceeds =>
    rw [hmax] at exceeds ⊢
    refine .tooLong ?_ exceeds
    rw [split, Octets.terminated_cons, List.append_assoc, List.append_assoc]
  | line split fits fault =>
    rw [hmax] at fits
    refine .line ?_ fits fault
    rw [split, Octets.terminated_cons, List.append_assoc, List.append_assoc]

/-- Lines are taken in, and then one is to blame. -/
theorem exists_reads_of_rescan (h : d.rescan b = (.error e, d', rest)) :
    ∃ lines, Reads d lines d' ∧ Blames d d' lines b rest e := by
  fun_induction rescan d b with
  | case1 => simp at h
  | case2 d b hf hnone =>
    split at h
    · rename_i hlong
      obtain ⟨rfl, rfl, rfl⟩ := by simpa using h
      exact ⟨[], .nil d, .tooLong rfl (.endless (Octets.crlfIndex?_eq_none_iff.1 hnone) hlong)⟩
    · simp at h
  | case3 d b hf i hsome hlong =>
    obtain ⟨rfl, rfl, rfl⟩ := by simpa using h
    obtain ⟨hline, hlength, hsplit⟩ := first_line_of_crlfIndex? hsome
    refine ⟨[], .nil d, .tooLong rfl ?_⟩
    rw [hsplit]
    exact .ended hline (by omega) _
  | case4 d b hf i hsome hshort hlt e₁ d₁ ht =>
    obtain ⟨rfl, rfl, rfl⟩ := by simpa using h
    obtain ⟨hline, hlength, hsplit⟩ := first_line_of_crlfIndex? hsome
    cases takes_takeLine ht with
    | refused short => exact ⟨[], .nil d, .line hsplit ⟨hline, by omega⟩ ht⟩
  | case5 => simp at h
  | case6 d b hf i hsome hshort hlt d₁ ht ih =>
    obtain ⟨hline, hlength, hsplit⟩ := first_line_of_crlfIndex? hsome
    obtain ⟨lines, hreads, hblames⟩ := ih h
    refine ⟨b.take i :: lines, .cons ⟨hline, by omega⟩ ht hreads, ?_⟩
    rw [hsplit, List.take_left' hlength]
    exact hblames.cons (takes_takeLine ht).maxLine_eq

/-- Octets that are taken in to the last one are lines within the limit. -/
theorem exists_lines_of_rescan {r : Except HeadError (Option Head)}
    (h : d.rescan b = (r, d', [])) :
    ∃ lines, b = terminated lines ∧ ∀ line ∈ lines, Fits d.maxLine line := by
  fun_induction rescan d b with
  | case1 d b hf =>
    obtain ⟨-, -, rfl⟩ := by simpa using h
    exact ⟨[], rfl, List.forall_mem_nil _⟩
  | case2 d b hf hnone =>
    obtain ⟨-, -, rfl⟩ := by simpa using h
    exact ⟨[], rfl, List.forall_mem_nil _⟩
  | case3 d b hf i hsome hlong =>
    obtain ⟨-, -, rfl⟩ := by simpa using h
    exact ⟨[], rfl, List.forall_mem_nil _⟩
  | case4 d b hf i hsome hshort hlt e₁ d₁ ht =>
    obtain ⟨-, -, hrest⟩ := by simpa only [Prod.mk.injEq] using h
    obtain ⟨hline, hlength, hsplit⟩ := first_line_of_crlfIndex? hsome
    refine ⟨[b.take i], ?_, List.forall_mem_singleton.2 ⟨hline, by omega⟩⟩
    rw [hrest] at hsplit
    exact hsplit.trans (Octets.terminated_cons _ []).symm
  | case5 d b hf i hsome hshort hlt head d₁ ht =>
    obtain ⟨-, -, hrest⟩ := by simpa only [Prod.mk.injEq] using h
    obtain ⟨hline, hlength, hsplit⟩ := first_line_of_crlfIndex? hsome
    refine ⟨[b.take i], ?_, List.forall_mem_singleton.2 ⟨hline, by omega⟩⟩
    rw [hrest] at hsplit
    exact hsplit.trans (Octets.terminated_cons _ []).symm
  | case6 d b hf i hsome hshort hlt d₁ ht ih =>
    obtain ⟨hline, hlength, hsplit⟩ := first_line_of_crlfIndex? hsome
    obtain ⟨lines, hlines, hfits⟩ := ih h
    rw [(takes_takeLine ht).maxLine_eq] at hfits
    refine ⟨b.take i :: lines, ?_, List.forall_mem_cons.2 ⟨⟨hline, by omega⟩, hfits⟩⟩
    rw [Octets.terminated_cons, ← hlines]
    exact hsplit

end HttpWire.Head.Decoder
