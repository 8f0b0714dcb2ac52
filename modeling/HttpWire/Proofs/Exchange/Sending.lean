import HttpWire.Proofs.Exchange.Writing
import HttpWire.Proofs.Request.Lifecycle
import HttpWire.Proofs.Request.Packets
import HttpWire.Proofs.Stepwise.Runs

/-! A request on the wire. However much of a write is accepted, the octets accepted so far are the
beginning of the packets joined, and the writing ends well only when they are all of them. -/
namespace HttpWire.RequestWriter
open Script PacketStream Stepwise

/-- The packets pulled so far are on the wire, but for what is left of the last one. -/
structure Sending (r : Request) (w : RequestWriter) (s : Script) : Prop where
  pulled : ∃ packets : List Octets,
    (answers r.encode).1 = packets.map (fun p => some (.ok p)) ++ (answers w.encoding).1 ∧
      packets.flatten = s.written ++ w.pending
  written_eq : w.written = s.written.length
  stage_ne : w.stage ≠ .write []
  ended : w.stage = .flush → (answers w.encoding).1 = [some (.ok [])]
  tidy : w.encoding.Tidy
  writes : ∀ e ∈ s.history, ∃ offered n, e = .write offered (.ok (n + 1)) ∧ offered ≠ []

/-- How far a request has come on the wire, with the result of writing it once there is one. -/
structure OnWire (r : Request) (result : Option (Except Error Nat)) (s : Script) : Prop where
  begun : s.written <+: r.wire
  offered_ne_nil : ∀ offered outcome, .write offered outcome ∈ s.history → offered ≠ []
  of_ok : ∀ n, result = some (.ok n) → s.written = r.wire ∧ n = r.wire.length ∧
    (answers r.encode).1.getLast? = some (some (.ok [])) ∧
    ∃ writes, s.history = writes ++ [.flush (.ok ())] ∧ ∀ e ∈ writes, e.isWrite = true
  of_unaccepted : ∀ offered, .write offered (.ok 0) ∈ s.history →
    result = some (.error (.io .writeZero))

namespace Sending
variable {r : Request} {w w' : RequestWriter} {s s' : Script}
  {p : Progress (Except Error (Step Nat))}

theorem new (r : Request) (reads : List ReadItem) (writes : List WriteItem)
    (flushError shutdownError : Option IoError) :
    Sending r (.new r.encode) (.new reads writes flushError shutdownError) := by
  constructor
  · exact ⟨[], rfl, rfl⟩
  · rfl
  · exact Stage.noConfusion
  · exact Stage.noConfusion
  · exact Request.Encoding.tidy_encode r
  · exact List.forall_mem_nil _

theorem wire_eq (h : Sending r w s) :
    r.wire = s.written ++ w.pending ++ handedOut (answers w.encoding).1 := by
  obtain ⟨packets, hanswers, hflatten⟩ := h.pulled
  rw [Request.wire, hanswers, handedOut_append, handedOut_packets, hflatten]

theorem written_of_flush (h : Sending r w s) (hstage : w.stage = .flush) :
    s.written = r.wire := by
  have hrest : handedOut [some (.ok [])] = [] := rfl
  rw [h.wire_eq, h.ended hstage, pending, hstage, hrest, List.append_nil, List.append_nil]

theorem begun (h : Sending r w s) : s.written <+: r.wire := by
  rw [h.wire_eq, List.append_assoc]
  exact List.prefix_append _ _

theorem onWire (h : Sending r w s) : OnWire r none s := by
  constructor
  · exact h.begun
  · intro offered outcome hmem
    obtain ⟨packet, n, he, hne⟩ := h.writes _ hmem
    obtain ⟨rfl, -⟩ := Event.write.inj he
    exact hne
  · exact fun n hn => absurd hn.symm (Option.some_ne_none _)
  · intro offered hmem
    obtain ⟨packet, n, he, -⟩ := h.writes _ hmem
    simp at he

/-- The writing ends with an operation that puts nothing on the wire. -/
theorem onWire_of_last {result : Except Error Nat} {e : Event} (h : Sending r w s)
    (hhistory : s'.history = s.history ++ [e]) (he : e.accepted = [])
    (hoffered : ∀ offered outcome, e = .write offered outcome → offered ≠ [])
    (hok : ∀ n, result = .ok n → w.stage = .flush ∧ n = w.written ∧ e = .flush (.ok ()))
    (hzero : ∀ offered, e = .write offered (.ok 0) → result = .error (.io .writeZero)) :
    OnWire r (some result) s' := by
  have hwritten : s'.written = s.written := by
    rw [written_of_history hhistory, he, List.append_nil]
  constructor
  · rw [hwritten]
    exact h.begun
  · intro offered outcome hmem
    rw [hhistory] at hmem
    obtain hmem | hmem := List.mem_append.1 hmem
    · exact h.onWire.offered_ne_nil offered outcome hmem
    · exact hoffered offered outcome (List.mem_singleton.1 hmem).symm
  · intro n hn
    obtain ⟨hstage, rfl, rfl⟩ := hok n (Option.some.inj hn)
    have hall := h.written_of_flush hstage
    refine ⟨hwritten.trans hall, by rw [h.written_eq, hall], ?_, s.history, hhistory, ?_⟩
    · obtain ⟨packets, hanswers, -⟩ := h.pulled
      rw [hanswers, h.ended hstage, List.getLast?_concat]
    · intro e he
      obtain ⟨offered, m, rfl, -⟩ := h.writes e he
      rfl
  · intro offered hmem
    rw [hhistory] at hmem
    obtain hmem | hmem := List.mem_append.1 hmem
    · exact absurd (h.onWire.of_unaccepted offered hmem) (by simp)
    · exact congrArg some (hzero offered (List.mem_singleton.1 hmem).symm)

section Steps
variable {packet : Octets} {encoding : Request.Encoding}

/-- The empty packet is the last answer. -/
theorem pullEnd (h : Sending r w s) (hstage : w.stage = .pull)
    (hnext : w.encoding.next = (.ok [], encoding)) :
    Sending r { w with encoding, stage := .flush } s := by
  obtain ⟨packets, hanswers, hflatten⟩ := h.pulled
  obtain ⟨htidy, hend⟩ := h.tidy.next
  have hpull := Request.Encoding.pull_eq w.encoding
  rw [hnext] at htidy hend hpull
  have hclosed := Request.Encoding.answers_of_closed (hend rfl)
  constructor
  · refine ⟨packets, ?_, ?_⟩
    · rw [hanswers, answers_of_end hpull rfl, hclosed]
    · rw [hflatten, pending, hstage]
      rfl
  · exact h.written_eq
  · exact Stage.noConfusion
  · exact fun _ => hclosed
  · exact htidy
  · exact h.writes

theorem pullPacket (h : Sending r w s) (hstage : w.stage = .pull) (hne : packet ≠ [])
    (hnext : w.encoding.next = (.ok packet, encoding)) :
    Sending r { w with encoding, stage := .write packet } s := by
  obtain ⟨packets, hanswers, hflatten⟩ := h.pulled
  obtain ⟨htidy, -⟩ := h.tidy.next
  have hpull := Request.Encoding.pull_eq w.encoding
  rw [hnext] at htidy hpull
  have hpending : w.pending = [] := by rw [pending, hstage]
  constructor
  · refine ⟨packets ++ [packet], ?_, ?_⟩
    · rw [hanswers, answers_of_packet hpull hne, List.map_append, List.append_assoc]
      rfl
    · rw [List.flatten_concat, hflatten, hpending, List.append_nil]
      rfl
  · exact h.written_eq
  · exact fun hnil => hne (Stage.write.inj hnil)
  · exact Stage.noConfusion
  · exact htidy
  · exact h.writes

/-- What is accepted goes from what is pending to what is written. -/
theorem accept {n : Nat} (h : Sending r w s) (hstage : w.stage = .write packet)
    (hwrite : s.write packet = (.ready (.ok (n + 1)), s')) :
    Sending r (w.accept packet (n + 1)) s' := by
  obtain ⟨packets, hanswers, hflatten⟩ := h.pulled
  have hhistory := history_of_write hwrite
  have hwritten : s'.written = s.written ++ packet.take (n + 1) := written_of_history hhistory
  have hpending : w.pending = packet := by rw [pending, hstage]
  constructor
  · refine ⟨packets, hanswers, ?_⟩
    rw [hflatten, hwritten, pending_accept, hpending, List.append_assoc, List.take_append_drop]
  · rw [hwritten, List.length_append, List.length_take,
      Nat.min_eq_left (le_length_of_write hwrite), ← h.written_eq]
    rfl
  · exact accept_stage_ne_write_nil w packet (n + 1)
  · exact fun hflush => absurd hflush (accept_stage_ne_flush w packet (n + 1))
  · exact h.tidy
  · rw [hhistory]
    refine List.forall_mem_append.2 ⟨h.writes, List.forall_mem_singleton.2 ⟨packet, n, rfl, ?_⟩⟩
    exact fun hnil => h.stage_ne (hnil ▸ hstage)

theorem wait (h : Sending r w s) (hwrite : s.write packet = (.again, s')) : Sending r w s' := by
  have hhistory := history_of_write_again hwrite
  have hwritten : s'.written = s.written := by rw [Script.written, hhistory, Script.written]
  constructor
  · rw [hwritten]
    exact h.pulled
  · rw [hwritten]
    exact h.written_eq
  · exact h.stage_ne
  · exact h.ended
  · exact h.tidy
  · rw [hhistory]
    exact h.writes

end Steps

/-- One step goes on, or comes to an end that leaves the wire in order. -/
theorem goes (h : Sending r w s) (hm : w.Moves s p w' s') :
    Goes (fun t => Sending r t.1 t.2) (fun result t => OnWire r (some result) t.2) (p, w', s') := by
  have hoffered {packet : Octets} {outcome : Except IoError Nat}
      (hstage : w.stage = .write packet) :
      ∀ offered outcome', Event.write packet outcome = .write offered outcome' → offered ≠ [] := by
    intro offered outcome' he hnil
    obtain ⟨rfl, -⟩ := Event.write.inj he
    exact h.stage_ne (hnil ▸ hstage)
  cases hm with
  | ended hstage hnext => exact h.pullEnd hstage hnext
  | pulled hstage hne hnext => exact h.pullPacket hstage hne hnext
  | failed hstage hnext =>
    have hwire := h.onWire
    exact ⟨hwire.begun, hwire.offered_ne_nil, fun n hn => by simp at hn,
      fun offered hmem => absurd (hwire.of_unaccepted offered hmem) (by simp)⟩
  | accepted hstage hwrite => exact h.accept hstage hwrite
  | unaccepted hstage hwrite =>
    exact h.onWire_of_last (history_of_write hwrite) rfl (hoffered hstage)
      (fun n hn => by simp at hn) fun _ _ => rfl
  | unwritten hstage hwrite =>
    exact h.onWire_of_last (history_of_write hwrite) rfl (hoffered hstage)
      (fun n hn => by simp at hn) fun offered he => by simp at he
  | putOff hstage hwrite => exact h.wait hwrite
  | flushed hstage hflush =>
    have hhistory := history_flush s
    rw [hflush] at hhistory
    exact h.onWire_of_last hhistory rfl (fun _ _ he => by simp at he)
      (fun n hn => ⟨hstage, (Except.ok.inj hn).symm, rfl⟩) fun _ he => by simp at he
  | unflushed hstage hflush =>
    have hhistory := history_flush s
    rw [hflush] at hhistory
    exact h.onWire_of_last hhistory rfl (fun _ _ he => by simp at he) (fun n hn => by simp at hn)
      fun _ he => by simp at he

end Sending

/-- Every write has something accepted, if not at once. -/
structure Unhindered (r : Request) (flushError : Option IoError) (w : RequestWriter) (s : Script) :
    Prop where
  sending : Sending r w s
  accepting : ∀ item ∈ s.writes, item.isAccepting = true
  flushError_eq : s.flushError = flushError

theorem Unhindered.goes {r : Request} {flushError : Option IoError} {w w' : RequestWriter}
    {s s' : Script} {p : Progress (Except Error (Step Nat))}
    (hends : (answers r.encode).1.getLast? = some (some (.ok [])))
    (h : Unhindered r flushError w s) (hm : w.Moves s p w' s') :
    Goes (fun t => Unhindered r flushError t.1 t.2)
      (fun result _ => result = ((verdict flushError).mapError .io).map fun _ => r.wire.length)
      (p, w', s') := by
  have hgoes := h.sending.goes hm
  have hwrite {packet : Octets} (hstage : w.stage = .write packet) : packet ≠ [] :=
    fun hnil => h.sending.stage_ne (hnil ▸ hstage)
  have hverdict : verdict flushError = s.flush.1 := by
    rw [← h.flushError_eq]
    rfl
  cases hm with
  | ended => exact ⟨hgoes, h.accepting, h.flushError_eq⟩
  | pulled => exact ⟨hgoes, h.accepting, h.flushError_eq⟩
  | failed hstage hnext =>
    obtain ⟨packets, hanswers, -⟩ := h.sending.pulled
    have hpull := Request.Encoding.pull_eq w.encoding
    rw [hnext] at hpull
    rw [hanswers, answers_of_end hpull rfl, List.getLast?_concat] at hends
    simp at hends
  | accepted hstage hw =>
    refine ⟨hgoes, fun item hitem => ?_, ?_⟩
    · exact h.accepting item (writes_of_write hw item hitem)
    · exact (flushError_of_write hw).trans h.flushError_eq
  | unaccepted hstage hw =>
    obtain hp | ⟨n, hp⟩ := write_of_isAccepting (hwrite hstage) h.accepting hw
    · simp at hp
    · simp at hp
  | unwritten hstage hw =>
    obtain hp | ⟨n, hp⟩ := write_of_isAccepting (hwrite hstage) h.accepting hw
    · simp at hp
    · simp at hp
  | putOff hstage hw =>
    refine ⟨hgoes, fun item hitem => ?_, ?_⟩
    · exact h.accepting item (writes_of_write hw item hitem)
    · exact (flushError_of_write hw).trans h.flushError_eq
  | flushed hstage hflush =>
    obtain ⟨-, hlength, -⟩ := hgoes.of_ok w.written rfl
    show Except.ok w.written = _
    rw [hverdict, hflush, hlength]
    rfl
  | unflushed hstage hflush =>
    show Except.error _ = _
    rw [hverdict, hflush]
    rfl

section Runs
variable {r : Request} {t : RequestWriter × Script}

theorem Sending.attempt (h : Sending r t.1 t.2) (k : Nat) :
    OnWire r (Stepwise.attempt k t).1 (Stepwise.attempt k t).2.2 := by
  have hstands := stands_attempt (P := fun t : RequestWriter × Script => Sending r t.1 t.2)
    (fun t ht => ht.goes (t.1.moves_step t.2)) h k
  cases ha : Stepwise.attempt k t with
  | mk result u =>
    rw [ha] at hstands
    cases result with
    | none => exact hstands.onWire
    | some result => exact hstands

theorem Sending.exists_attempt (h : Sending r t.1 t.2) :
    ∃ k result, (Stepwise.attempt k t).1 = some result ∧ Stepwise.attempt k t = drive t := by
  obtain ⟨result, u, hdrive, -⟩ := exists_drive_eq
    (P := fun t : RequestWriter × Script => Sending r t.1 t.2)
    (fun t ht => ht.goes (t.1.moves_step t.2)) h
  obtain ⟨k, hk⟩ := exists_attempt_eq_drive t
  exact ⟨k, result, by rw [hk, hdrive], hk⟩

theorem Unhindered.drive_eq {flushError : Option IoError} (h : Unhindered r flushError t.1 t.2)
    (hends : (answers r.encode).1.getLast? = some (some (.ok []))) :
    (drive t).1 = some (((verdict flushError).mapError .io).map fun _ => r.wire.length) := by
  obtain ⟨result, u, hdrive, hresult⟩ := exists_drive_eq
    (P := fun t : RequestWriter × Script => Unhindered r flushError t.1 t.2)
    (fun t ht => ht.goes hends (t.1.moves_step t.2)) h
  rw [hdrive, hresult]

end Runs

/-- After any number of steps the octets accepted are the beginning of the request. The writing
comes to its end, whatever the writes come to. If each of them has something accepted and the
request is pulled to its end, everything is put on the wire, and then it depends on the flush. -/
theorem onWire_attempt (r : Request) (reads : List ReadItem) (writes : List WriteItem)
    (flushError shutdownError : Option IoError) :
    let start := (RequestWriter.new r.encode, Script.new reads writes flushError shutdownError)
    (∀ k, OnWire r (Stepwise.attempt k start).1 (Stepwise.attempt k start).2.2) ∧
      (∃ k result, (Stepwise.attempt k start).1 = some result ∧
        Stepwise.attempt k start = drive start) ∧
      ((∀ item ∈ writes, item.isAccepting = true) →
        (answers r.encode).1.getLast? = some (some (.ok [])) →
        (drive start).1 =
          some (((verdict flushError).mapError .io).map fun _ => r.wire.length)) := by
  intro start
  have hsending : Sending r start.1 start.2 := .new r reads writes flushError shutdownError
  refine ⟨hsending.attempt, hsending.exists_attempt, fun haccepting hends => ?_⟩
  have hunhindered : Unhindered r flushError start.1 start.2 := ⟨hsending, haccepting, rfl⟩
  exact hunhindered.drive_eq hends

/-- Three octets are accepted of the first packet, then a write is put off. -/
theorem onWire_attempt_in_parts :
    let uri : Uri :=
      ⟨some "http", some "net", "/parts", some "p", by decide +kernel, by decide +kernel,
        by decide +kernel⟩
    let r : Request := ⟨.get, uri, .empty, none⟩
    let writes : List WriteItem := [.accept 3, .notReady, .accept 1]
    let start := (RequestWriter.new r.encode, Script.new [] writes none none)
    (∀ item ∈ writes, item.isAccepting = true) ∧
      (answers r.encode).1.getLast? = some (some (.ok [])) ∧
      (Stepwise.attempt 4 start).2.2.written.length = 4 ∧
      OnWire r (Stepwise.attempt 4 start).1 (Stepwise.attempt 4 start).2.2 ∧
      (drive start).1 = some (.ok 36) := by
  intro uri r writes start
  obtain ⟨hwire, -, hdrive⟩ := onWire_attempt r [] writes none none
  have haccepting : ∀ item ∈ writes, item.isAccepting = true := by decide
  have hends : (answers r.encode).1.getLast? = some (some (.ok [])) := by decide +kernel
  have hlength : r.wire.length = 36 := by decide +kernel
  refine ⟨haccepting, hends, by decide +kernel, hwire 4, ?_⟩
  rw [hdrive haccepting hends, hlength]
  rfl

end HttpWire.RequestWriter
