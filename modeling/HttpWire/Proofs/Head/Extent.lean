import HttpWire.Proofs.Head.Chunks
import HttpWire.Proofs.Octets.Texts

/-! How far a head reaches: to the end of the first blank line, and no octet further. -/
namespace HttpWire.Head.Decoder

/-- The line end that is already gone from the buffer, if a line was taken in. -/
def preceding (d : Decoder) : Octets := if d.status = none then [] else Octets.crlf

theorem Takes.status_ne_none {d d' : Decoder} {line : String} (h : d.Takes line (.ok none) d') :
    d'.status ≠ none := by
  cases h with
  | status first read => simp
  | field later nonempty read => simp [later]

/-- A line after the first one has something in it if the head goes on after it. -/
theorem Takes.pos {d d' : Decoder} {b : Octets} {k : Nat} (hd : d.status ≠ none)
    (h : d.Takes (Octets.latin1 (b.take k)) (.ok none) d') : 0 < k := by
  refine Nat.pos_of_ne_zero ?_
  rintro rfl
  cases h with
  | status first read => exact hd first
  | field later nonempty read => exact nonempty rfl

theorem drop_crlfIndex? {b : Octets} {i : Nat} (h : Octets.crlfIndex? b = some i) :
    b.drop i = Octets.crlf ++ b.drop (i + 2) := by
  have hlt := Octets.crlfIndex?_lt h
  have hb := congrArg (List.drop i) (Octets.eq_line_append h)
  have hlen : (b.take i).length = i := by
    rw [List.length_take]
    omega
  rwa [List.append_assoc, List.drop_left' hlen] at hb

/-- After a line that does not complete the head, the search for the blank line goes on. -/
theorem Takes.firstBlankAt {d d' : Decoder} {b : Octets} {i k : Nat}
    (ht : d.Takes (Octets.latin1 (b.take k)) (.ok none) d') (hk : Octets.crlfIndex? b = some k)
    (h : Octets.FirstBlankAt (d'.preceding ++ b.drop (k + 2)) i) :
    Octets.FirstBlankAt (d.preceding ++ b) (d.preceding.length + k + i) := by
  have hbefore := (Octets.crlfIndex?_eq_some_iff.1 hk).2
  rw [preceding, if_neg ht.status_ne_none, ← drop_crlfIndex? hk] at h
  have hline := h.of_drop fun j hj hat => hbefore j hj hat.1
  rw [preceding]
  -- the line just taken in was the first one, or it was not blank
  split
  · rw [List.nil_append, List.length_nil, Nat.zero_add]
    exact hline
  · rename_i hd
    rw [Nat.add_assoc]
    exact hline.crlf_append (hbefore 0 (ht.pos hd))

theorem firstBlankAt_preceding {d d' : Decoder} {b rest : Octets} {head : Head}
    (h : d.rescan b = (.ok (some head), d', rest)) :
    ∃ i, Octets.FirstBlankAt (d.preceding ++ b) i ∧ rest = (d.preceding ++ b).drop (i + 4) := by
  fun_induction rescan d b with
  | case1 => simp at h
  | case2 d b hf hnone =>
    split at h <;> simp at h
  | case3 => simp at h
  | case4 => simp at h
  | case5 d b hf k hsome hshort hlt head' d₁ ht =>
    obtain ⟨-, -, rfl⟩ := by simpa using h
    have hk := Octets.crlfIndex?_lt hsome
    cases takes_takeLine ht with
    | blank later empty =>
      have hzero : k = 0 := by
        have := congrArg List.length (Octets.latin1_eq_empty_iff.1 empty)
        rw [List.length_take, List.length_nil] at this
        omega
      subst hzero
      rw [preceding, if_neg (by simp [later])]
      refine ⟨0, ⟨⟨Octets.lineEndAt_crlf_append _, ?_⟩, ?_⟩, rfl⟩
      · exact (Octets.crlfIndex?_eq_some_iff.1 hsome).1
      · exact fun j hj => absurd hj (Nat.not_lt_zero j)
  | case6 d b hf k hsome hshort hlt d₁ ht ih =>
    have ht := takes_takeLine ht
    obtain ⟨i, hi, hrest⟩ := ih h
    refine ⟨_, ht.firstBlankAt hsome hi, ?_⟩
    rw [hrest, preceding, if_neg ht.status_ne_none, ← drop_crlfIndex? hsome, List.drop_drop,
      Nat.add_assoc, Nat.add_assoc, List.drop_length_add_append]

/-- Where a line comes after which the head goes on, there is no blank line. -/
theorem Takes.blankless {d d' : Decoder} {b : Octets} {k : Nat}
    (ht : d.Takes (Octets.latin1 (b.take k)) (.ok none) d') (hk : Octets.crlfIndex? b = some k)
    (h : Octets.Blankless (d'.preceding ++ b.drop (k + 2))) :
    Octets.Blankless (d.preceding ++ b) := by
  have hbefore := (Octets.crlfIndex?_eq_some_iff.1 hk).2
  rw [preceding, if_neg ht.status_ne_none, ← drop_crlfIndex? hk] at h
  have hline := h.of_drop hbefore
  rw [preceding]
  split
  · exact hline
  · rename_i hd
    exact hline.crlf_append (hbefore 0 (ht.pos hd))

/-- A decoder that asks for more has seen no blank line. -/
theorem blankless_preceding {d d' : Decoder} {b rest : Octets} (hd : d.finished = false)
    (h : d.rescan b = (.ok none, d', rest)) : Octets.Blankless (d.preceding ++ b) := by
  fun_induction rescan d b with
  | case1 d b hf => simp [hd] at hf
  | case2 d b hf hnone =>
    have hunbroken : Octets.Unbroken b := Octets.crlfIndex?_eq_none_iff.1 hnone
    have hblankless := Octets.blankless_of_unbroken hunbroken
    rw [preceding]
    split
    · exact hblankless
    · exact hblankless.crlf_append (hunbroken 0)
  | case3 => simp at h
  | case4 => simp at h
  | case5 => simp at h
  | case6 d b hf k hsome hshort hlt d₁ ht ih =>
    have ht := takes_takeLine ht
    exact ht.blankless hsome (ih (ht.finished_eq.trans hd) h)

theorem blankless_of_rescan_new {maxLine : Nat} {d : Decoder} {b rest : Octets}
    (h : (new maxLine).rescan b = (.ok none, d, rest)) : Octets.Blankless b :=
  blankless_preceding (d := new maxLine) rfl h

/-- A head is complete where the first blank line ends, and is decoded from the octets up to there
alone. -/
theorem head_of_rescan_new {maxLine : Nat} {d : Decoder} {b rest : Octets} {head : Head}
    (h : (new maxLine).rescan b = (.ok (some head), d, rest)) :
    ∃ taken i, b = taken ++ rest ∧ Octets.FirstBlankAt b i ∧ taken.length = i + 4 ∧
      (new maxLine).rescan taken = (.ok (some head), d, []) := by
  obtain ⟨i, hi, hrest⟩ := firstBlankAt_preceding h
  obtain ⟨taken, hb, htaken⟩ := exists_taken h
  have hi : Octets.FirstBlankAt b i := hi
  have hrest : rest = b.drop (i + 4) := hrest
  refine ⟨taken, i, hb, hi, ?_, htaken⟩
  have hlt := hi.add_lt
  have hlen := congrArg List.length hb
  rw [List.length_append, hrest, List.length_drop] at hlen
  omega

end HttpWire.Head.Decoder
