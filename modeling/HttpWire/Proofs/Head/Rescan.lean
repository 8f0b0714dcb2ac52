import HttpWire.Proofs.Octets.LineEnds
import HttpWire.Response.Head

/-! Decoding that searches every line end from the front of the buffer. The decoder remembers how
far it has searched, and gives the same results. -/
namespace HttpWire.Head.Decoder

/-- The decoder without its memory of what was searched. -/
def rewind (d : Decoder) : Decoder := { d with scanned := 0 }

@[simp] theorem rewind_maxLine (d : Decoder) : d.rewind.maxLine = d.maxLine := rfl

@[simp] theorem rewind_status (d : Decoder) : d.rewind.status = d.status := rfl

@[simp] theorem rewind_headers (d : Decoder) : d.rewind.headers = d.headers := rfl

@[simp] theorem rewind_finished (d : Decoder) : d.rewind.finished = d.finished := rfl

/-- `decode`, with each line end searched for from the first octet. -/
def rescan (d : Decoder) (b : Octets) : Except HeadError (Option Head) × Decoder × Octets :=
  if d.finished then (.ok none, d, b)
  else
    match h : Octets.crlfIndex? b with
    | none => (if b.length > d.maxLine then .error (.lineTooLong d.maxLine) else .ok none, d, b)
    | some i =>
      if i > d.maxLine then (.error (.lineTooLong d.maxLine), d, b)
      else
        have := Octets.length_drop_crlfIndex?_lt h
        match d.takeLine (Octets.latin1 (b.take i)) with
        | (.error e, d) => (.error e, d, b.drop (i + 2))
        | (.ok (some head), d) => (.ok (some head), d, b.drop (i + 2))
        | (.ok none, d) => d.rescan (b.drop (i + 2))
termination_by b.length

section Equations
variable {d d' : Decoder} {b : Octets} {i : Nat}

theorem rescan_of_finished (hf : d.finished = true) (b : Octets) :
    d.rescan b = (.ok none, d, b) := by
  rw [rescan, if_pos hf]

theorem rescan_of_none (hf : d.finished = false) (hb : Octets.crlfIndex? b = none) :
    d.rescan b =
      (if b.length > d.maxLine then .error (.lineTooLong d.maxLine) else .ok none, d, b) := by
  rw [rescan, if_neg (by simp [hf])]
  split <;> simp_all

theorem rescan_of_long (hf : d.finished = false) (hb : Octets.crlfIndex? b = some i)
    (hi : i > d.maxLine) : d.rescan b = (.error (.lineTooLong d.maxLine), d, b) := by
  rw [rescan, if_neg (by simp [hf])]
  split <;> simp_all

private theorem rescan_of_line (hf : d.finished = false) (hb : Octets.crlfIndex? b = some i)
    (hi : ¬ i > d.maxLine) : d.rescan b =
      match d.takeLine (Octets.latin1 (b.take i)) with
      | (.error e, d) => (.error e, d, b.drop (i + 2))
      | (.ok (some head), d) => (.ok (some head), d, b.drop (i + 2))
      | (.ok none, d) => d.rescan (b.drop (i + 2)) := by
  rw [rescan, if_neg (by simp [hf])]
  split
  · simp_all
  · rename_i j hj
    obtain rfl : i = j := Option.some.inj (hb.symm.trans hj)
    rw [if_neg hi]

theorem rescan_of_error {e : HeadError} (hf : d.finished = false)
    (hb : Octets.crlfIndex? b = some i) (hi : ¬ i > d.maxLine)
    (ht : d.takeLine (Octets.latin1 (b.take i)) = (.error e, d')) :
    d.rescan b = (.error e, d', b.drop (i + 2)) := by
  rw [rescan_of_line hf hb hi, ht]

theorem rescan_of_head {head : Head} (hf : d.finished = false)
    (hb : Octets.crlfIndex? b = some i) (hi : ¬ i > d.maxLine)
    (ht : d.takeLine (Octets.latin1 (b.take i)) = (.ok (some head), d')) :
    d.rescan b = (.ok (some head), d', b.drop (i + 2)) := by
  rw [rescan_of_line hf hb hi, ht]

theorem rescan_of_more (hf : d.finished = false) (hb : Octets.crlfIndex? b = some i)
    (hi : ¬ i > d.maxLine) (ht : d.takeLine (Octets.latin1 (b.take i)) = (.ok none, d')) :
    d.rescan b = d'.rescan (b.drop (i + 2)) := by
  rw [rescan_of_line hf hb hi, ht]

end Equations

/-- No line end starts before the place from which the next search goes on, and that place is not
past the last octet. -/
structure Searched (d : Decoder) (b : Octets) : Prop where
  scanned_le : d.scanned ≤ b.length - 1
  le_of_lineEndAt : ∀ i, Octets.LineEndAt b i → d.scanned ≤ i

theorem searched_of_scanned_eq_zero {d : Decoder} (h : d.scanned = 0) (b : Octets) :
    d.Searched b := by
  constructor
  · rw [h]
    exact Nat.zero_le _
  · intro i _
    rw [h]
    exact Nat.zero_le _

theorem Searched.append {d : Decoder} {b : Octets} (h : d.Searched b) (chunk : Octets) :
    d.Searched (b ++ chunk) := by
  have hle := h.scanned_le
  constructor
  · rw [List.length_append]
    omega
  · intro i hi
    by_cases hin : i + 1 < b.length
    · exact h.le_of_lineEndAt i ((Octets.lineEndAt_append_left hin).1 hi)
    · omega

theorem Searched.append_piece {d : Decoder} {buffer : Buffer} (h : d.Searched buffer.toOctets)
    (piece : Octets) : d.Searched (buffer.append piece).toOctets := by
  rw [Buffer.toOctets_append]
  exact h.append piece

theorem crlfIndex?_drop {b : Octets} {k : Nat} (h : ∀ i, Octets.LineEndAt b i → k ≤ i) :
    (Octets.crlfIndex? (b.drop k)).map (k + ·) = Octets.crlfIndex? b := by
  cases hb : Octets.crlfIndex? b with
  | none =>
    have hnone : Octets.crlfIndex? (b.drop k) = none := by
      refine Octets.crlfIndex?_eq_none_iff.2 fun i hi => ?_
      exact Octets.crlfIndex?_eq_none_iff.1 hb _ (Octets.lineEndAt_drop.1 hi)
    rw [hnone]
    rfl
  | some i =>
    obtain ⟨hat, hlt⟩ := Octets.crlfIndex?_eq_some_iff.1 hb
    have hk := h i hat
    have hsome : Octets.crlfIndex? (b.drop k) = some (i - k) := by
      refine Octets.crlfIndex?_eq_some_iff.2 ⟨?_, fun j hj hj' => ?_⟩
      · rw [Octets.lineEndAt_drop, Nat.add_sub_cancel' hk]
        exact hat
      · exact hlt (k + j) (by omega) (Octets.lineEndAt_drop.1 hj')
    rw [hsome, Option.map_some, Nat.add_sub_cancel' hk]

theorem lineEnd?_eq_crlfIndex? {d : Decoder} {buffer : Buffer} (h : d.Searched buffer.toOctets) :
    d.lineEnd? buffer = Octets.crlfIndex? buffer.toOctets := by
  have hle := h.scanned_le
  rw [Buffer.length_toOctets] at hle
  have hmin : min d.scanned buffer.size = d.scanned := Nat.min_eq_left (by omega)
  rw [lineEnd?, hmin, Buffer.since_eq_drop]
  exact crlfIndex?_drop h.le_of_lineEndAt

/-- What one line can do to a decoder. -/
inductive Takes (d : Decoder) (line : String) : Except HeadError (Option Head) → Decoder → Prop
  | refused {e : HeadError} (short : ∀ n, e ≠ .lineTooLong n) : d.Takes line (.error e) d
  | status {status : Nat × String} (first : d.status = none) (read : statusLine line = .ok status) :
    d.Takes line (.ok none) { d with status := some status }
  | field {status : Nat × String} {headers : HeaderMap} (later : d.status = some status)
    (nonempty : line ≠ "") (read : fieldLine d.headers line = .ok headers) :
    d.Takes line (.ok none) { d with headers }
  | blank {status : Nat} {reason : String} (later : d.status = some (status, reason))
    (empty : line = "") :
    d.Takes line (.ok (some ⟨status, reason, d.headers⟩))
      { d with status := none, headers := .empty, finished := true }

theorem statusLine_ne_lineTooLong {line : String} {e : HeadError} (h : statusLine line = .error e)
    (n : Nat) : e ≠ .lineTooLong n := by
  rintro rfl
  unfold statusLine at h
  repeat' split at h
  all_goals simp at h

theorem fieldLine_ne_lineTooLong {headers : HeaderMap} {line : String} {e : HeadError}
    (h : fieldLine headers line = .error e) (n : Nat) : e ≠ .lineTooLong n := by
  rintro rfl
  unfold fieldLine at h
  split at h
  · simp at h
  · rename_i name value _
    cases hm : headers.append (String.ofList (Text.trim Text.isSpaceOrTab name))
        (String.ofList (Text.trim Text.isSpaceOrTab value)) <;>
      simp [hm, Except.mapError] at h

theorem takes_takeLine {d d' : Decoder} {line : String} {r : Except HeadError (Option Head)}
    (h : d.takeLine line = (r, d')) : d.Takes line r d' := by
  unfold takeLine at h
  split at h
  · rename_i hs
    split at h <;> obtain ⟨rfl, rfl⟩ := Prod.mk.inj h <;> rename_i hr
    · exact .refused (statusLine_ne_lineTooLong hr)
    · exact .status hs hr
  · rename_i hs
    split at h
    · rename_i hl
      obtain ⟨rfl, rfl⟩ := Prod.mk.inj h
      exact .blank hs hl
    · rename_i hl
      split at h <;> obtain ⟨rfl, rfl⟩ := Prod.mk.inj h <;> rename_i hr
      · exact .refused (fieldLine_ne_lineTooLong hr)
      · exact .field hs hl hr

theorem Takes.maxLine_eq {d d' : Decoder} {line : String} {r : Except HeadError (Option Head)}
    (h : d.Takes line r d') : d'.maxLine = d.maxLine := by
  cases h <;> rfl

theorem Takes.scanned_eq {d d' : Decoder} {line : String} {r : Except HeadError (Option Head)}
    (h : d.Takes line r d') : d'.scanned = d.scanned := by
  cases h <;> rfl

theorem Takes.finished_eq {d d' : Decoder} {line : String} (h : d.Takes line (.ok none) d') :
    d'.finished = d.finished := by
  cases h <;> rfl

/-- What an outcome comes to when the memory of what was searched is left out. -/
def Outcome.view (o : Outcome) : Except HeadError (Option Head) × Decoder × Octets :=
  (o.result, o.decoder.rewind, o.buffer.toOctets)

theorem rewind_of_scanned_eq_zero {d : Decoder} (h : d.scanned = 0) : d.rewind = d := by
  cases d
  subst h
  rfl

/-- The memory of what was searched changes no result, and stays true. -/
theorem view_decode {d : Decoder} {buffer : Buffer} (h : d.Searched buffer.toOctets) :
    (d.decode buffer).view = d.rewind.rescan buffer.toOctets ∧
      (d.decode buffer).decoder.Searched (d.decode buffer).buffer.toOctets := by
  fun_induction decode d buffer with
  | case1 d buffer hf => exact ⟨(rescan_of_finished (d := d.rewind) hf _).symm, h⟩
  | case2 d buffer hf hnone hlong =>
    rw [lineEnd?_eq_crlfIndex? h] at hnone
    rw [rescan_of_none (by simpa using hf) hnone, if_pos (by simpa using hlong)]
    exact ⟨rfl, h⟩
  | case3 d buffer hf hnone hshort =>
    rw [lineEnd?_eq_crlfIndex? h] at hnone
    rw [rescan_of_none (by simpa using hf) hnone, if_neg (by simpa using hshort)]
    -- the last octet may be a carriage return, so the next search starts with it
    refine ⟨rfl, ?_, fun i hi => absurd hi (Octets.crlfIndex?_eq_none_iff.1 hnone i)⟩
    exact Nat.le_of_eq (by rw [Buffer.length_toOctets])
  | case4 d buffer hf i hsome hlong =>
    rw [lineEnd?_eq_crlfIndex? h] at hsome
    rw [rescan_of_long (d := d.rewind) (by simpa using hf) hsome hlong]
    exact ⟨rfl, h⟩
  | case5 d buffer hf i hsome hshort hlt e d' ht =>
    rw [lineEnd?_eq_crlfIndex? h] at hsome
    have hz : d'.scanned = 0 := (takes_takeLine ht).scanned_eq
    rw [rescan_of_error (d := d.rewind) (by simpa using hf) hsome hshort ht, Outcome.view,
      rewind_of_scanned_eq_zero hz]
    exact ⟨rfl, searched_of_scanned_eq_zero hz _⟩
  | case6 d buffer hf i hsome hshort hlt head d' ht =>
    rw [lineEnd?_eq_crlfIndex? h] at hsome
    have hz : d'.scanned = 0 := (takes_takeLine ht).scanned_eq
    rw [rescan_of_head (d := d.rewind) (by simpa using hf) hsome hshort ht, Outcome.view,
      rewind_of_scanned_eq_zero hz]
    exact ⟨rfl, searched_of_scanned_eq_zero hz _⟩
  | case7 d buffer hf i hsome hshort hlt d' ht ih =>
    rw [lineEnd?_eq_crlfIndex? h] at hsome
    have hz : d'.scanned = 0 := (takes_takeLine ht).scanned_eq
    rw [rescan_of_more (d := d.rewind) (by simpa using hf) hsome hshort ht, ← Buffer.toOctets_drop]
    rw [rewind_of_scanned_eq_zero hz] at ih
    exact ih (searched_of_scanned_eq_zero hz _)

end HttpWire.Head.Decoder
