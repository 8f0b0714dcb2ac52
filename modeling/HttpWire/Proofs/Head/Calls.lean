import HttpWire.Proofs.Head.Chunks

/-! A decoder over a whole run, past its errors. Octets are appended and decoding is asked for in
any order, and every call comes to what a search from the front of the buffer comes to. -/
namespace HttpWire.Head.Decoder

/-- What a caller does to a decoder and its buffer. -/
inductive Call
  | append (piece : Octets)
  | decode

/-- One call of a run, with the buffer before and after it. -/
structure LogEntry where
  /-- What decoding came to, if it was asked for. -/
  result : Option (Except HeadError (Option Head))
  before : Octets
  after : Octets

/-- What each call comes to. -/
def log (d : Decoder) (buffer : Buffer) : List Call → List LogEntry
  | [] => []
  | .append piece :: calls =>
    ⟨none, buffer.toOctets, (buffer.append piece).toOctets⟩ :: d.log (buffer.append piece) calls
  | .decode :: calls =>
    let o := d.decode buffer
    ⟨some o.result, buffer.toOctets, o.buffer.toOctets⟩ :: o.decoder.log o.buffer calls

/-- `log`, with each line end searched for from the first octet. -/
def rescanLog (d : Decoder) (b : Octets) : List Call → List LogEntry
  | [] => []
  | .append piece :: calls => ⟨none, b, b ++ piece⟩ :: d.rescanLog (b ++ piece) calls
  | .decode :: calls =>
    let (result, d, rest) := d.rescan b
    ⟨some result, b, rest⟩ :: d.rescanLog rest calls

theorem rescanLog_decode {d d' : Decoder} {b rest : Octets} {r : Except HeadError (Option Head)}
    (h : d.rescan b = (r, d', rest)) (calls : List Call) :
    d.rescanLog b (.decode :: calls) = ⟨some r, b, rest⟩ :: d'.rescanLog rest calls := by
  rw [rescanLog, h]

/-- The memory of what was searched stays true over the whole run. -/
theorem Searched.log_eq {d : Decoder} {buffer : Buffer} (h : d.Searched buffer.toOctets)
    (calls : List Call) : d.log buffer calls = d.rewind.rescanLog buffer.toOctets calls := by
  induction calls generalizing d buffer with
  | nil => rfl
  | cons call calls ih =>
    cases call with
    | append piece =>
      rw [log, rescanLog, ih (h.append_piece piece), Buffer.toOctets_append]
    | decode =>
      obtain ⟨hview, hsearched⟩ := view_decode h
      rw [Outcome.view] at hview
      rw [log, rescanLog_decode hview.symm, ih hsearched]

/-- If the call decodes, it finds nothing and leaves the buffer alone. -/
def LogEntry.IsIdle (e : LogEntry) : Prop :=
  ∀ r, e.result = some r → r = .ok none ∧ e.after = e.before

def LogEntry.givesHead (e : LogEntry) : Bool :=
  match e.result with
  | some (.ok (some _)) => true
  | _ => false

theorem LogEntry.IsIdle.givesHead_eq {e : LogEntry} (h : e.IsIdle) : e.givesHead = false := by
  unfold givesHead
  split
  · rename_i head hresult
    have hnone : (.ok (some head) : Except HeadError (Option Head)) = .ok none :=
      (h _ hresult).1
    simp at hnone
  · rfl

theorem isIdle_of_finished {d : Decoder} (hf : d.finished = true) (b : Octets)
    (calls : List Call) : ∀ e ∈ d.rescanLog b calls, e.IsIdle := by
  induction calls generalizing b with
  | nil => simp [rescanLog]
  | cons call calls ih =>
    cases call with
    | append piece =>
      rw [rescanLog, List.forall_mem_cons]
      exact ⟨fun r hr => by simp at hr, ih (b ++ piece)⟩
    | decode =>
      rw [rescanLog_decode (rescan_of_finished hf b), List.forall_mem_cons]
      refine ⟨fun r hr => ⟨?_, rfl⟩, ih b⟩
      exact (Option.some.inj hr).symm

/-- The call that gives the head finishes the decoder. -/
theorem finished_of_rescan {d d' : Decoder} {b rest : Octets} {head : Head}
    (h : d.rescan b = (.ok (some head), d', rest)) : d'.finished = true := by
  fun_induction rescan d b with
  | case1 => simp at h
  | case2 =>
    split at h <;> simp at h
  | case3 => simp at h
  | case4 => simp at h
  | case5 d b hf i hsome hshort hlt head' d₁ ht =>
    obtain ⟨-, rfl, -⟩ := by simpa using h
    cases takes_takeLine ht with
    | blank later empty => rfl
  | case6 d b hf i hsome hshort hlt d₁ ht ih => exact ih h

/-- After a head, every later call is idle. -/
theorem pairwise_rescanLog (d : Decoder) (b : Octets) (calls : List Call) :
    (d.rescanLog b calls).Pairwise fun e later => e.givesHead = true → later.IsIdle := by
  induction calls generalizing d b with
  | nil => exact .nil
  | cons call calls ih =>
    cases call with
    | append piece =>
      rw [rescanLog, List.pairwise_cons]
      refine ⟨fun e _ hgives => ?_, ih d (b ++ piece)⟩
      simp [LogEntry.givesHead] at hgives
    | decode =>
      obtain ⟨r, d', rest, hrescan⟩ : ∃ r d' rest, d.rescan b = (r, d', rest) := ⟨_, _, _, rfl⟩
      rw [rescanLog_decode hrescan, List.pairwise_cons]
      refine ⟨fun e he hgives => ?_, ih d' rest⟩
      unfold LogEntry.givesHead at hgives
      split at hgives
      · rename_i head hresult
        rw [Option.some.inj hresult] at hrescan
        exact isIdle_of_finished (finished_of_rescan hrescan) rest calls e he
      · simp at hgives

theorem countP_givesHead_le_one {entries : List LogEntry}
    (h : entries.Pairwise fun e later => e.givesHead = true → later.IsIdle) :
    entries.countP LogEntry.givesHead ≤ 1 := by
  induction entries with
  | nil => exact Nat.zero_le 1
  | cons e entries ih =>
    obtain ⟨hfirst, hrest⟩ := List.pairwise_cons.1 h
    by_cases hgives : e.givesHead = true
    · have hnone : entries.countP LogEntry.givesHead = 0 := by
        refine List.countP_eq_zero.2 fun later hlater => ?_
        simp [(hfirst later hlater hgives).givesHead_eq]
      rw [List.countP_cons_of_pos hgives, hnone]
    · rw [List.countP_cons_of_neg hgives]
      exact ih hrest

/-- The memory of what was searched makes no difference to any call. A head is given at most once,
and every call after it finds nothing and leaves the buffer alone. -/
theorem log_new_eq_rescanLog (maxLine : Nat) (calls : List Call) :
    let entries := (new maxLine).log .empty calls
    entries = (new maxLine).rescanLog [] calls ∧
      entries.countP LogEntry.givesHead ≤ 1 ∧
      ∀ before e after, entries = before ++ e :: after → e.givesHead = true →
        ∀ later ∈ after, later.IsIdle := by
  intro entries
  have hlog : entries = (new maxLine).rescanLog [] calls := (searched_new maxLine).log_eq calls
  have hpairwise : entries.Pairwise fun e later => e.givesHead = true → later.IsIdle := by
    rw [hlog]
    exact pairwise_rescanLog _ _ _
  refine ⟨hlog, countP_givesHead_le_one hpairwise, ?_⟩
  intro before e after hsplit hgives later hlater
  rw [hsplit] at hpairwise
  have hafter : (e :: after).Pairwise fun e later => e.givesHead = true → later.IsIdle :=
    (List.pairwise_append.1 hpairwise).2.1
  exact (List.pairwise_cons.1 hafter).1 later hlater hgives

end HttpWire.Head.Decoder
