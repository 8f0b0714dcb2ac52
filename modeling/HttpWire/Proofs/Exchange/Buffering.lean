import HttpWire.Proofs.Connection.Course
import HttpWire.Proofs.Connection.Reads
import HttpWire.Proofs.Exchange.Arrival

/-! What is kept of the input while a head is read: never more than a line that has not ended and
one packet. The reader asks for no packet that it does not need, and gives up only on input in which
no head ends. -/
namespace HttpWire

/-- No head is complete in these octets: a decoder asks for more, and there is no blank line. -/
structure Head.Incomplete (maxLine : Nat) (b : Octets) : Prop where
  more : ((Decoder.new maxLine).feed .empty b).result = .ok none
  blankless : Octets.Blankless b

theorem Head.Unfinished.incomplete {maxLine : Nat} {b : Octets} (h : Unfinished maxLine b) :
    Incomplete maxLine b := by
  have hrescan : (Decoder.new maxLine).rescan b =
      (.ok none, ((Decoder.new maxLine).rescan b).2) := Prod.ext h rfl
  constructor
  · rw [Unfinished, Decoder.rescan_new] at h
    exact h
  · exact Decoder.blankless_of_rescan_new hrescan

theorem Buffer.size_append (b : Buffer) (piece : Octets) :
    (b.append piece).size = b.size + piece.length := by
  rw [← length_toOctets, toOctets_append, List.length_append, length_toOctets]

namespace HeadReader
open Script
variable {packetSize maxLine : Nat} {input : Octets × Option IoError} {r r' : HeadReader}
  {s s' : Script}

/-- What is in the buffer is one line, as far as it is there. -/
theorem Follows.line (h : r.Follows maxLine s) :
    Octets.Unbroken r.buffer.toOctets ∧ r.buffer.size ≤ maxLine := by
  obtain ⟨hhalts, hmax⟩ := Head.Decoder.halts_rescan h.rescan_eq
  have hopen := Head.Decoder.finished_eq_of_rescan h.rescan_eq rfl
  cases hhalts with
  | settled answer => simp [Head.Decoder.isSettled] at answer
  | finished hf => exact absurd (hf.symm.trans hopen) Bool.noConfusion
  | short hf hb hl =>
    refine ⟨Octets.crlfIndex?_eq_none_iff.1 hb, ?_⟩
    rw [Buffer.length_toOctets, hmax] at hl
    exact hl

theorem source_digest (r : HeadReader) (packet : Octets) :
    (r.digest packet).2.source = r.source := by
  unfold digest
  dsimp only
  split <;> rfl

/-- Decoding only takes from the buffer. -/
theorem size_digest_le (h : r.decoder.Searched r.buffer.toOctets) (packet : Octets) :
    (r.digest packet).2.buffer.size ≤ (r.buffer.append packet).size := by
  have hview := (Head.Decoder.view_feed h packet).1
  obtain ⟨taken, htaken, -⟩ := Head.Decoder.exists_taken hview.symm
  have hle : (r.decoder.feed r.buffer packet).buffer.size ≤ (r.buffer.append packet).size := by
    have hlen := congrArg List.length htaken
    rw [← Buffer.toOctets_append, List.length_append, Buffer.length_toOctets,
      Buffer.length_toOctets] at hlen
    omega
  unfold digest
  dsimp only
  split
  · exact hle
  · exact hle
  · exact Nat.zero_le _

/-- No failure to decode is an end of the input. -/
theorem digest_ne_prematureEof {packet : Octets} :
    r.digest packet ≠ (.error .prematureEof, r') := by
  unfold digest
  dsimp only
  split <;> simp

/-- How things stand before a step: all the input is either received or still to come. -/
structure Reading (packetSize maxLine : Nat) (input : Octets × Option IoError) (r : HeadReader)
    (s : Script) : Prop where
  follows : r.Follows maxLine s
  packetSize_eq : r.source.packetSize = max 1 packetSize
  reads : s.ReadsOnlyWhile (Head.Unfinished maxLine)
  input_eq : input = (s.received ++ s.course.1, s.course.2)

/-- How things stand once the reading is over. -/
structure Over (packetSize maxLine : Nat) (input : Octets × Option IoError)
    (result : Except Error (Head × Octets)) (r : HeadReader) (s : Script) : Prop where
  size_le : r.buffer.size ≤ maxLine + max 1 packetSize
  reads : s.ReadsOnlyWhile (Head.Unfinished maxLine)
  premature : result = .error .prematureEof → input.2 = none ∧ Head.Unfinished maxLine input.1

/-- The buffer when a packet is added, before anything is decoded. -/
theorem Reading.size_append_le (h : Reading packetSize maxLine input r s) {packet : Octets}
    (hpull : r.source.pull s = (.ready (.ok packet), s')) :
    (r.buffer.append packet).size ≤ maxLine + max 1 packetSize := by
  have hline := h.follows.line.2
  have hpacket := PacketReader.length_le_of_pull hpull
  rw [h.packetSize_eq] at hpacket
  rw [Buffer.size_append]
  omega

theorem Reading.packet {packet : Octets} (h : Reading packetSize maxLine input r s)
    (hpull : r.source.pull s = (.ready (.ok packet), s')) (hpacket : packet ≠ []) :
    Stepwise.Goes (fun m => Reading packetSize maxLine input m.1 m.2)
      (fun result m => Over packetSize maxLine input result m.1 m.2)
      (.ready (HeadReader.digest { r with waiting := false } packet).1,
        (HeadReader.digest { r with waiting := false } packet).2, s') := by
  have ha := PacketReader.advances_pull hpull
  have hreads := ha.readsOnlyWhile _ h.follows.unfinished h.reads
  have hsize := Nat.le_trans (size_digest_le (r := { r with waiting := false }) h.follows.searched
    packet) (h.size_append_le hpull)
  have hsource := source_digest { r with waiting := false } packet
  cases hdigest : HeadReader.digest { r with waiting := false } packet with
  | mk result r' =>
    rw [hdigest] at hsize hsource
    match result with
    | .error e =>
      refine ⟨hsize, hreads, ?_⟩
      rintro ⟨⟩
      exact absurd hdigest digest_ne_prematureEof
    | .ok (.done output) =>
      refine ⟨hsize, hreads, ?_⟩
      rintro ⟨⟩
    | .ok .more =>
      refine ⟨(h.follows.of_waiting false).digest_more ha hdigest, ?_, hreads, ?_⟩
      · exact (congrArg PacketReader.packetSize hsource).trans h.packetSize_eq
      · have hcourse := PacketReader.follows_pull h.follows.isOpen h.follows.packetSize_pos hpull
        cases hcourse with
        | ended => exact absurd rfl hpacket
        | packet hb hcourse =>
          rw [h.input_eq, hcourse, ha.received_eq, answered, List.append_assoc]

/-- Every step keeps what holds before it, or is the last one. -/
theorem Reading.goes_step (h : Reading packetSize maxLine input r s) :
    Stepwise.Goes (fun m => Reading packetSize maxLine input m.1 m.2)
      (fun result m => Over packetSize maxLine input result m.1 m.2) (Stepwise.step (r, s)) := by
  have hline := Nat.le_trans h.follows.line.2 (Nat.le_add_right maxLine (max 1 packetSize))
  show Stepwise.Goes _ _ (r.step s)
  unfold step
  split
  all_goals
    rename_i hpull
    have ha := PacketReader.advances_pull hpull
    have hreads := ha.readsOnlyWhile _ h.follows.unfinished h.reads
    have hcourse := PacketReader.follows_pull h.follows.isOpen h.follows.packetSize_pos hpull
  · refine ⟨hline, hreads, fun _ => ?_⟩
    cases hcourse with
    | ended hcourse =>
      rw [h.input_eq, hcourse, List.append_nil]
      exact ⟨rfl, h.follows.unfinished⟩
    | packet hb => exact absurd rfl hb
  · exact h.packet hpull (List.cons_ne_nil _ _)
  · obtain ⟨cause, rfl⟩ := PacketReader.exists_io_of_pull hpull
    refine ⟨hline, hreads, ?_⟩
    rintro ⟨⟩
  · have hreceived := ha.received_eq.trans (List.append_nil _)
    refine ⟨h.follows.of_again (.putOff ha), h.packetSize_eq, hreads, ?_⟩
    cases hcourse with
    | putOff hcourse => rw [h.input_eq, hcourse, hreceived]
  · exact absurd hpull PacketReader.pull_ne_stalled

/-- What holds of a reader and its buffer after some steps, of which the last may have ended the
reading. -/
structure Bounded (packetSize maxLine : Nat) (input : Octets × Option IoError)
    (result : Option (Except Error (Head × Octets))) (r : HeadReader) (s : Script) : Prop where
  /-- Before the next step. -/
  line : result = none → Octets.Unbroken r.buffer.toOctets ∧ r.buffer.size ≤ maxLine
  incomplete : result = none → Head.Incomplete maxLine s.received
  /-- Within the next step. -/
  size_append_le : result = none → ∀ packet s', r.source.pull s = (.ready (.ok packet), s') →
    (r.buffer.append packet).size ≤ maxLine + max 1 packetSize
  size_le : r.buffer.size ≤ maxLine + max 1 packetSize
  reads : s.ReadsOnlyWhile (Head.Incomplete maxLine)
  premature : result = some (.error .prematureEof) → input.2 = none ∧ Octets.Blankless input.1

theorem Reading.bounded (h : Reading packetSize maxLine input r s) :
    Bounded packetSize maxLine input none r s := by
  constructor
  · exact fun _ => h.follows.line
  · exact fun _ => h.follows.unfinished.incomplete
  · exact fun _ packet s' hpull => h.size_append_le hpull
  · exact Nat.le_trans h.follows.line.2 (Nat.le_add_right _ _)
  · exact h.reads.imp fun _ _ hunfinished => hunfinished.incomplete
  · rintro ⟨⟩

theorem Over.bounded {result : Except Error (Head × Octets)}
    (h : Over packetSize maxLine input result r s) :
    Bounded packetSize maxLine input (some result) r s := by
  constructor
  · rintro ⟨⟩
  · rintro ⟨⟩
  · rintro ⟨⟩
  · exact h.size_le
  · exact h.reads.imp fun _ _ hunfinished => hunfinished.incomplete
  · intro hresult
    obtain ⟨hended, hunfinished⟩ := h.premature (Option.some.inj hresult)
    exact ⟨hended, hunfinished.incomplete.blankless⟩

/-- However the input comes, and whatever goes wrong with it, the reader keeps no more than a line
that has not ended and a packet. It reads only as long as no head is complete, and gives up only if
the input has ended without a blank line. -/
theorem bounded_of_script (packetSize maxLine : Nat) (reads : List ReadItem)
    (writes : List WriteItem) (flushError shutdownError : Option IoError) :
    let start : HeadReader × Script :=
      (.new (.new packetSize) maxLine, .new reads writes flushError shutdownError)
    let BoundedAt (m : Option (Except Error (Head × Octets)) × HeadReader × Script) : Prop :=
      Bounded packetSize maxLine (courseOf reads) m.1 m.2.1 m.2.2
    (∀ k, BoundedAt (Stepwise.attempt k start)) ∧ BoundedAt (Stepwise.drive start) := by
  intro start BoundedAt
  have hstart : Reading packetSize maxLine (courseOf reads) start.1 start.2 :=
    ⟨follows_new packetSize maxLine rfl, rfl, readsOnlyWhile_new _ _ _ _ _, rfl⟩
  have hattempt (k : Nat) : BoundedAt (Stepwise.attempt k start) := by
    have hstands := Stepwise.stands_attempt
      (P := fun m : HeadReader × Script => Reading packetSize maxLine (courseOf reads) m.1 m.2)
      (Q := fun result m => Over packetSize maxLine (courseOf reads) result m.1 m.2)
      (fun m hm => hm.goes_step) hstart k
    cases hresult : Stepwise.attempt k start with
    | mk result m =>
      rw [hresult] at hstands
      cases result with
      | none => exact hstands.bounded
      | some result => exact hstands.bounded
  refine ⟨hattempt, ?_⟩
  obtain ⟨k, hk⟩ := Stepwise.exists_attempt_eq_drive start
  exact hk ▸ hattempt k

end HeadReader
end HttpWire
