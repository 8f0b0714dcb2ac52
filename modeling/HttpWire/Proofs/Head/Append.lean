import HttpWire.Proofs.Head.Rescan

/-! Decoding in two goes: where the first one ends, and what the second one finds. -/
namespace HttpWire.Head.Decoder

/-- A result that further octets cannot change: a head, or the refusal of a line that has ended. -/
def isSettled : Except HeadError (Option Head) → Bool
  | .ok none => false
  | .ok (some _) => true
  | .error (.lineTooLong _) => false
  | .error _ => true

theorem Takes.isSettled_error {d d' : Decoder} {line : String} {e : HeadError}
    (h : d.Takes line (.error e) d') : isSettled (.error e) = true := by
  cases h with
  | refused short =>
    cases e with
    | lineTooLong n => exact absurd rfl (short n)
    | _ => rfl

/-- Where a run over the octets at hand comes to its end. -/
inductive Halts : Except HeadError (Option Head) → Decoder → Octets → Prop
  | settled {r : Except HeadError (Option Head)} {d : Decoder} {b : Octets}
    (answer : isSettled r = true) : Halts r d b
  | finished {d : Decoder} {b : Octets} (hf : d.finished = true) : Halts (.ok none) d b
  | short {d : Decoder} {b : Octets} (hf : d.finished = false)
    (hb : Octets.crlfIndex? b = none) (hl : b.length ≤ d.maxLine) : Halts (.ok none) d b
  | endless {d : Decoder} {b : Octets} (hf : d.finished = false)
    (hb : Octets.crlfIndex? b = none) (hl : d.maxLine < b.length) :
    Halts (.error (.lineTooLong d.maxLine)) d b
  | long {d : Decoder} {b : Octets} {i : Nat} (hf : d.finished = false)
    (hb : Octets.crlfIndex? b = some i) (hi : d.maxLine < i) :
    Halts (.error (.lineTooLong d.maxLine)) d b

theorem halts_rescan {d d' : Decoder} {b rest : Octets} {r : Except HeadError (Option Head)}
    (h : d.rescan b = (r, d', rest)) : Halts r d' rest ∧ d'.maxLine = d.maxLine := by
  fun_induction rescan d b with
  | case1 d b hf =>
    obtain ⟨rfl, rfl, rfl⟩ := by simpa using h
    exact ⟨.finished hf, rfl⟩
  | case2 d b hf hnone =>
    have hf : d.finished = false := by simpa using hf
    obtain ⟨rfl, rfl, rfl⟩ := by simpa using h
    by_cases hl : b.length > d.maxLine
    · rw [if_pos hl]
      exact ⟨.endless hf hnone hl, rfl⟩
    · rw [if_neg hl]
      exact ⟨.short hf hnone (Nat.not_lt.1 hl), rfl⟩
  | case3 d b hf i hsome hlong =>
    obtain ⟨rfl, rfl, rfl⟩ := by simpa using h
    exact ⟨.long (by simpa using hf) hsome hlong, rfl⟩
  | case4 d b hf i hsome hshort hlt e d₁ ht =>
    obtain ⟨rfl, rfl, rfl⟩ := by simpa using h
    exact ⟨.settled (takes_takeLine ht).isSettled_error, (takes_takeLine ht).maxLine_eq⟩
  | case5 d b hf i hsome hshort hlt head d₁ ht =>
    obtain ⟨rfl, rfl, rfl⟩ := by simpa using h
    exact ⟨.settled rfl, (takes_takeLine ht).maxLine_eq⟩
  | case6 d b hf i hsome hshort hlt d₁ ht ih =>
    obtain ⟨hhalts, hmax⟩ := ih h
    exact ⟨hhalts, hmax.trans (takes_takeLine ht).maxLine_eq⟩

/-- Only the blank line finishes a decoder. -/
theorem finished_eq_of_rescan {d d' : Decoder} {b rest : Octets}
    {r : Except HeadError (Option Head)} (h : d.rescan b = (r, d', rest))
    (hr : isSettled r = false) : d'.finished = d.finished := by
  fun_induction rescan d b with
  | case1 =>
    obtain ⟨rfl, rfl, rfl⟩ := by simpa using h
    rfl
  | case2 =>
    obtain ⟨rfl, rfl, rfl⟩ := by simpa using h
    rfl
  | case3 =>
    obtain ⟨rfl, rfl, rfl⟩ := by simpa using h
    rfl
  | case4 d b hf i hsome hshort hlt e d₁ ht =>
    obtain ⟨rfl, rfl, rfl⟩ := by simpa using h
    simp [(takes_takeLine ht).isSettled_error] at hr
  | case5 d b hf i hsome hshort hlt head d₁ ht =>
    obtain ⟨rfl, rfl, rfl⟩ := by simpa using h
    simp [isSettled] at hr
  | case6 d b hf i hsome hshort hlt d₁ ht ih => exact (ih h).trans (takes_takeLine ht).finished_eq

theorem take_append_of_crlfIndex? {b : Octets} {i : Nat} (h : Octets.crlfIndex? b = some i)
    (q : Octets) : (b ++ q).take i = b.take i := by
  have := Octets.crlfIndex?_lt h
  exact List.take_append_of_le_length (by omega)

theorem drop_append_of_crlfIndex? {b : Octets} {i : Nat} (h : Octets.crlfIndex? b = some i)
    (q : Octets) : (b ++ q).drop (i + 2) = b.drop (i + 2) ++ q := by
  have := Octets.crlfIndex?_lt h
  exact List.drop_append_of_le_length (by omega)

/-- A settled result stays, and every other run goes on from where it came to its end. -/
theorem rescan_append {d d' : Decoder} {b rest : Octets} {r : Except HeadError (Option Head)}
    (h : d.rescan b = (r, d', rest)) (q : Octets) :
    d.rescan (b ++ q) = if isSettled r then (r, d', rest ++ q) else d'.rescan (rest ++ q) := by
  fun_induction rescan d b with
  | case1 d b hf =>
    obtain ⟨rfl, rfl, rfl⟩ := by simpa using h
    rfl
  | case2 d b hf hnone =>
    obtain ⟨rfl, rfl, rfl⟩ := by simpa using h
    split <;> rfl
  | case3 d b hf i hsome hlong =>
    obtain ⟨rfl, rfl, rfl⟩ := by simpa using h
    rfl
  | case4 d b hf i hsome hshort hlt e d₁ ht =>
    obtain ⟨rfl, rfl, rfl⟩ := by simpa using h
    rw [(takes_takeLine ht).isSettled_error, if_pos rfl, ← drop_append_of_crlfIndex? hsome]
    rw [← take_append_of_crlfIndex? hsome q] at ht
    exact rescan_of_error (by simpa using hf) (Octets.crlfIndex?_append_of_some hsome q) hshort ht
  | case5 d b hf i hsome hshort hlt head d₁ ht =>
    obtain ⟨rfl, rfl, rfl⟩ := by simpa using h
    rw [isSettled, if_pos rfl, ← drop_append_of_crlfIndex? hsome]
    rw [← take_append_of_crlfIndex? hsome q] at ht
    exact rescan_of_head (by simpa using hf) (Octets.crlfIndex?_append_of_some hsome q) hshort ht
  | case6 d b hf i hsome hshort hlt d₁ ht ih =>
    rw [← ih h, ← drop_append_of_crlfIndex? hsome]
    rw [← take_append_of_crlfIndex? hsome q] at ht
    exact rescan_of_more (by simpa using hf) (Octets.crlfIndex?_append_of_some hsome q) hshort ht

theorem rescan_nil (d : Decoder) : d.rescan [] = (.ok none, d, []) := by
  cases hf : d.finished with
  | true => exact rescan_of_finished hf []
  | false => rw [rescan_of_none hf rfl, if_neg (by simp)]

/-- The first line alone, with its end. -/
theorem take_line {b : Octets} {i : Nat} :
    (b.take (i + 2)).take i = b.take i ∧ (b.take (i + 2)).drop (i + 2) = [] := by
  constructor
  · rw [List.take_take, Nat.min_eq_left (by omega)]
  · exact List.drop_eq_nil_of_le (List.length_take_le _ _)

/-- A run takes in whole lines, and they alone bring it as far. -/
theorem exists_taken {d d' : Decoder} {b rest : Octets} {r : Except HeadError (Option Head)}
    (h : d.rescan b = (r, d', rest)) :
    ∃ taken, b = taken ++ rest ∧
      d.rescan taken = (if isSettled r then r else .ok none, d', []) := by
  fun_induction rescan d b with
  | case1 d b hf =>
    obtain ⟨rfl, rfl, rfl⟩ := by simpa using h
    exact ⟨[], rfl, rescan_nil d⟩
  | case2 d b _ hnone =>
    obtain ⟨rfl, rfl, rfl⟩ := by simpa using h
    refine ⟨[], rfl, (rescan_nil d).trans ?_⟩
    split <;> rfl
  | case3 d b _ i hsome hlong =>
    obtain ⟨rfl, rfl, rfl⟩ := by simpa using h
    exact ⟨[], rfl, rescan_nil d⟩
  | case4 d b hf i hsome hshort hlt e d₁ ht =>
    obtain ⟨rfl, rfl, rfl⟩ := by simpa using h
    obtain ⟨hline, hrest⟩ := take_line (b := b) (i := i)
    refine ⟨b.take (i + 2), (List.take_append_drop _ _).symm, ?_⟩
    rw [← hline] at ht
    rw [rescan_of_error (by simpa using hf) (Octets.crlfIndex?_take_of_some hsome) hshort ht,
      hrest, (takes_takeLine ht).isSettled_error, if_pos rfl]
  | case5 d b hf i hsome hshort hlt head d₁ ht =>
    obtain ⟨rfl, rfl, rfl⟩ := by simpa using h
    obtain ⟨hline, hrest⟩ := take_line (b := b) (i := i)
    refine ⟨b.take (i + 2), (List.take_append_drop _ _).symm, ?_⟩
    rw [← hline] at ht
    rw [rescan_of_head (by simpa using hf) (Octets.crlfIndex?_take_of_some hsome) hshort ht, hrest]
    rfl
  | case6 d b hf i hsome hshort hlt d₁ ht ih =>
    obtain ⟨taken, hb, htaken⟩ := ih h
    have hfirst := Octets.crlfIndex?_take_of_some hsome
    obtain ⟨hline, hrest⟩ := take_line (b := b) (i := i)
    refine ⟨b.take (i + 2) ++ taken, ?_, ?_⟩
    · rw [List.append_assoc, ← hb, List.take_append_drop]
    · rw [← hline, ← take_append_of_crlfIndex? hfirst taken] at ht
      rw [rescan_of_more (by simpa using hf) (Octets.crlfIndex?_append_of_some hfirst taken)
        hshort ht, drop_append_of_crlfIndex? hfirst, hrest]
      exact htaken

end HttpWire.Head.Decoder
