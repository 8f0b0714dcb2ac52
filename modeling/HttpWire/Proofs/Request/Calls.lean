import HttpWire.Proofs.Exchange.Quiet
import HttpWire.Proofs.Request.Lifecycle
import HttpWire.Proofs.Request.Packets

/-! A request on its way into packets, pulled and stopped in any order: which packets come, what
ends them, and what has become of the body by then. -/
namespace HttpWire.Request

/-- The packets with octets among these answers. -/
def packetsIn (answers : List (Option (Except Error Octets))) : List Octets :=
  (answers.map PacketStream.packetOf).filter (· ≠ [])

/-- The packets of a new pass over the body, up to its end or its failure. -/
def bodyPackets (r : Request) : List Octets := packetsIn r.bodyAnswers

theorem packetsIn_append (earlier later : List (Option (Except Error Octets))) :
    packetsIn (earlier ++ later) = packetsIn earlier ++ packetsIn later := by
  rw [packetsIn, List.map_append, List.filter_append, packetsIn, packetsIn]

theorem packetsIn_packet {packet : Octets} (h : packet ≠ []) :
    packetsIn [some (.ok packet)] = [packet] := by
  rw [packetsIn, List.map_singleton, PacketStream.packetOf, List.filter_singleton]
  simp [h]

theorem ne_nil_of_mem_headPackets {r : Request} {packet : Octets} (h : packet ∈ r.headPackets) :
    packet ≠ [] := by
  obtain h | h := List.mem_append.1 h
  · obtain rfl | h := List.mem_cons.1 h
    · simp [requestLine, Octets.crlf]
    · obtain ⟨field, -, rfl⟩ := List.mem_map.1 h
      simp [fieldLine, Octets.crlf]
  · rw [List.mem_singleton.1 h]
    exact List.cons_ne_nil _ _

def BodyEvent.isOpened : BodyEvent → Bool
  | .opened => true
  | _ => false

theorem InUse.countP_isOpened {events : List BodyEvent} (h : InUse events) :
    events.countP BodyEvent.isOpened = 1 := by
  obtain ⟨results, rfl⟩ := h
  have hpulled : (results.map BodyEvent.pulled).countP BodyEvent.isOpened = 0 := by
    rw [List.countP_eq_zero]
    intro event hevent
    obtain ⟨result, -, rfl⟩ := List.mem_map.1 hevent
    exact Bool.false_ne_true
  rw [List.countP_cons, hpulled]
  rfl

namespace Encoding
open PacketStream

inductive Call
  | pull
  | stop

/-- What a call has come to. -/
inductive Report
  | pulled (result : Except Error Octets)
  | stopped (result : Except Error Unit)

namespace Report

/-- The answer of a pull. -/
def answer : Report → Option (Except Error Octets)
  | pulled result => some result
  | stopped _ => none

/-- An empty packet, an error, or that the request was stopped. -/
def isEnd : Report → Bool
  | pulled (.ok packet) => packet == []
  | pulled (.error _) => true
  | stopped _ => true

/-- Neither a packet with octets nor an error. -/
def IsSilent (report : Report) : Prop := report = .pulled (.ok []) ∨ report = .stopped (.ok ())

theorem IsSilent.isEnd {report : Report} (h : report.IsSilent) : report.isEnd = true := by
  obtain rfl | rfl := h <;> rfl

end Report

def perform : Call → Encoding → Report × Encoding
  | .pull, e => (.pulled e.next.1, e.next.2)
  | .stop, e => (.stopped e.close.1, e.close.2)

/-- One call after the other, each with its report. -/
def run : List Call → Encoding → List Report × Encoding
  | [], e => ([], e)
  | call :: calls, e =>
    let (report, e) := perform call e
    let (reports, e) := run calls e
    (report :: reports, e)

/-- The packets with octets that these calls have handed out. -/
def packets (reports : List Report) : List Octets := packetsIn (reports.map Report.answer)

/-- No call has brought an end. -/
def Going (reports : List Report) : Prop := ∀ report ∈ reports, report.isEnd = false

/-- The first of these reports that is an end is `last`. -/
structure EndsAt (reports before : List Report) (last : Report) (after : List Report) : Prop where
  eq : reports = before ++ last :: after
  going : Going before
  isEnd : last.isEnd = true

/-- How the body stands when a report ends the request. What came of closing it is told only where
the request was stopped. -/
inductive Concludes : Report → List BodyEvent → Prop
  | unopened : Concludes (.stopped (.ok ())) []
  | bodiless : Concludes (.pulled (.ok [])) []
  | stopped {events : List BodyEvent} (h : InUse events) (verdict : Except Error Unit) :
    Concludes (.stopped verdict) (events ++ [.closed verdict])
  | pulled {events : List BodyEvent} (h : InUse events) (result : Except Error Octets)
    (verdict : Except Error Unit) :
    Concludes (.pulled result) (events ++ [.pulled result, .closed verdict])

/-- What holds of a request that was ended by `last`. -/
structure Over (r : Request) (e : Encoding) (before : List Report) (last : Report)
    (after : List Report) : Prop where
  concludes : Concludes last e.history
  /-- Only a request that is stopped keeps packets back. -/
  exhausted : ∀ result, last = .pulled result → packets before = r.headPackets ++ r.bodyPackets
  silent : ∀ report ∈ after, report.IsSilent

/-- What holds of a request, whatever was called. -/
structure Lifecycle (r : Request) (reports : List Report) (e : Encoding) : Prop where
  packets_prefix : packets reports <+: r.headPackets ++ r.bodyPackets
  /-- The body is opened with the blank line, the last packet of the head. -/
  opened : e.history.countP BodyEvent.isOpened =
    if r.body.isSome ∧ r.headPackets <+: packets reports then 1 else 0
  going : Going reports → e.history = [] ∨ InUse e.history
  ended : ∀ before last after, EndsAt reports before last after → Over r e before last after

variable {r : Request} {reports before after : List Report} {report last : Report} {e e' : Encoding}

theorem packets_append :
    packets (reports ++ [report]) = packets reports ++ packetsIn [report.answer] := by
  rw [packets, List.map_append, packetsIn_append, packets, List.map_singleton]

theorem packets_append_of_isEnd (h : report.isEnd = true) :
    packets (reports ++ [report]) = packets reports := by
  have hnone : packetsIn [report.answer] = [] := by
    match report with
    | .pulled (.ok (o :: os)) => exact absurd h Bool.false_ne_true
    | .pulled (.ok []) => rfl
    | .pulled (.error _) => rfl
    | .stopped _ => rfl
  rw [packets_append, hnone, List.append_nil]

theorem going_append : Going (reports ++ [report]) ↔ Going reports ∧ report.isEnd = false := by
  rw [Going, List.forall_mem_append, List.forall_mem_singleton, Going]

theorem not_going_append (h : report.isEnd = true) : ¬ Going (reports ++ [report]) := by
  rw [going_append, h]
  exact fun hgoing => Bool.noConfusion hgoing.2

theorem EndsAt.not_going (h : EndsAt reports before last after) : ¬ Going reports := by
  intro hgoing
  have hlast := hgoing last (by rw [h.eq]; exact List.mem_append_right _ List.mem_cons_self)
  rw [h.isEnd] at hlast
  exact Bool.noConfusion hlast

/-- A report that is added is the first end, or comes after it. -/
theorem EndsAt.append (h : EndsAt (reports ++ [report]) before last after) :
    before = reports ∧ last = report ∧ after = [] ∨
      ∃ after', after = after' ++ [report] ∧ EndsAt reports before last after' := by
  obtain rfl | ⟨after', final, rfl⟩ := List.eq_nil_or_concat after
  · obtain ⟨hreports, hreport⟩ := List.append_inj' h.eq rfl
    exact .inl ⟨hreports.symm, (List.cons.inj hreport).1.symm, rfl⟩
  · have heq := h.eq
    rw [List.concat_eq_append, ← List.cons_append, ← List.append_assoc] at heq
    obtain ⟨hreports, hreport⟩ := List.append_inj' heq rfl
    obtain ⟨rfl, -⟩ := List.cons.inj hreport
    exact .inr ⟨after', List.concat_eq_append, hreports, h.going, h.isEnd⟩

namespace Lifecycle

/-- While it goes on there is nothing to say of an end. -/
theorem of_going (hgoing : Going reports)
    (hwithin : packets reports <+: r.headPackets ++ r.bodyPackets)
    (hopened : e.history.countP BodyEvent.isOpened =
      if r.body.isSome ∧ r.headPackets <+: packets reports then 1 else 0)
    (hhistory : e.history = [] ∨ InUse e.history) : Lifecycle r reports e :=
  ⟨hwithin, hopened, fun _ => hhistory, fun _ _ _ hends => absurd hgoing hends.not_going⟩

/-- The first end. -/
theorem append_end (h : Lifecycle r reports e) (hgoing : Going reports)
    (hend : report.isEnd = true)
    (hopened : e'.history.countP BodyEvent.isOpened = e.history.countP BodyEvent.isOpened)
    (hover : Over r e' reports report []) : Lifecycle r (reports ++ [report]) e' := by
  have hpackets : packets (reports ++ [report]) = packets reports := packets_append_of_isEnd hend
  constructor
  · rw [hpackets]
    exact h.packets_prefix
  · rw [hpackets, hopened]
    exact h.opened
  · exact fun hgoing' => absurd hgoing' (not_going_append hend)
  · intro before last after hends
    obtain ⟨rfl, rfl, rfl⟩ | ⟨after', -, hends'⟩ := hends.append
    · exact hover
    · exact absurd hgoing hends'.not_going

/-- After the end there is nothing more to tell. -/
theorem append_silent (h : Lifecycle r reports e) (hgoing : ¬ Going reports)
    (hsilent : report.IsSilent) : Lifecycle r (reports ++ [report]) e := by
  have hpackets : packets (reports ++ [report]) = packets reports :=
    packets_append_of_isEnd hsilent.isEnd
  constructor
  · rw [hpackets]
    exact h.packets_prefix
  · rw [hpackets]
    exact h.opened
  · exact fun hgoing' => absurd (going_append.1 hgoing').1 hgoing
  · intro before last after hends
    obtain ⟨rfl, -, -⟩ | ⟨after', rfl, hends'⟩ := hends.append
    · exact absurd hends.going hgoing
    · obtain ⟨hconcludes, hexhausted, hafter⟩ := h.ended before last after' hends'
      refine ⟨hconcludes, hexhausted, ?_⟩
      exact List.forall_mem_append.2 ⟨hafter, List.forall_mem_singleton.2 hsilent⟩

end Lifecycle

/-- The packets of the head that are still to come. -/
def headLeft (e : Encoding) : List Octets :=
  match e.phase with
  | .requestLine line fields => line :: fields.map fieldLine ++ [Octets.crlf]
  | .fields rest => rest.map fieldLine ++ [Octets.crlf]
  | _ => []

/-- The head is handed out packet by packet. -/
theorem next_of_headLeft {packet : Octets} {rest : List Octets} (h : e.headLeft = packet :: rest) :
    e.next.1 = .ok packet ∧
      (e.next.2.headLeft = rest ∧ rest ≠ [] ∧ e.next.2.source = e.source ∧
          e.next.2.record = e.record ∨
        rest = [] ∧ e.next.2 = e.endFields) := by
  obtain ⟨source, phase, record⟩ := e
  match phase with
  | .requestLine line fields =>
    obtain ⟨rfl, rfl⟩ := List.cons.inj h
    exact ⟨rfl, .inl ⟨rfl, List.concat_ne_nil _ _, rfl, rfl⟩⟩
  | .fields (field :: fields) =>
    obtain ⟨rfl, rfl⟩ := List.cons.inj h
    exact ⟨rfl, .inl ⟨rfl, List.concat_ne_nil _ _, rfl, rfl⟩⟩
  | .fields [] =>
    obtain ⟨rfl, rfl⟩ := List.cons.inj h
    exact ⟨rfl, .inr ⟨rfl, rfl⟩⟩
  | .body stream => exact absurd h (List.cons_ne_nil _ _).symm
  | .closed => exact absurd h (List.cons_ne_nil _ _).symm

/-- Part of the head is out. -/
structure InHead (r : Request) (reports : List Report) (e : Encoding) : Prop where
  going : Going reports
  source_eq : e.source = r.body
  history_eq : e.history = []
  headLeft_ne_nil : e.headLeft ≠ []
  packets_eq : packets reports ++ e.headLeft = r.headPackets

/-- The head is out, and `earlier` is what the body has answered since. -/
structure InBody (r : Request) (stream : Body.Stream)
    (earlier : List (Option (Except Error Octets))) (reports : List Report) (e : Encoding) :
    Prop where
  going : Going reports
  isSome : r.body.isSome = true
  phase_eq : e.phase = .body stream
  inUse : InUse e.history
  packets_eq : packets reports = r.headPackets ++ packetsIn earlier
  answers_eq : r.bodyAnswers = earlier ++ (answers stream).1

/-- Where a request stands after these reports. -/
inductive Standing (r : Request) (reports : List Report) (e : Encoding) : Prop
  | head (h : InHead r reports e)
  | body (stream : Body.Stream) (earlier : List (Option (Except Error Octets)))
    (h : InBody r stream earlier reports e)
  /-- Without a body the blank line is the last packet, and the end is not told yet. -/
  | closed (h : Lifecycle r reports e) (phase_eq : e.phase = .closed)
    (bodiless : Going reports →
      e.history = [] ∧ packets reports = r.headPackets ++ r.bodyPackets)

theorem standing_encode (r : Request) : Standing r [] r.encode :=
  .head ⟨List.forall_mem_nil _, rfl, rfl, List.cons_ne_nil _ _, rfl⟩

theorem InHead.lifecycle (h : InHead r reports e) : Lifecycle r reports e := by
  refine .of_going h.going ?_ ?_ (.inl h.history_eq)
  · rw [← h.packets_eq, List.append_assoc]
    exact List.prefix_append _ _
  · have hpartial : ¬ r.headPackets <+: packets reports := by
      intro hwithin
      have hle := hwithin.length_le
      have hpos := List.length_pos_iff.2 h.headLeft_ne_nil
      rw [← h.packets_eq, List.length_append] at hle
      omega
    rw [h.history_eq, if_neg fun hopened => hpartial hopened.2]
    rfl

theorem InBody.lifecycle {stream : Body.Stream} {earlier : List (Option (Except Error Octets))}
    (h : InBody r stream earlier reports e) : Lifecycle r reports e := by
  refine .of_going h.going ?_ ?_ (.inr h.inUse)
  · rw [h.packets_eq, bodyPackets, h.answers_eq, packetsIn_append, ← List.append_assoc]
    exact List.prefix_append _ _
  · have hopened : r.body.isSome = true ∧ r.headPackets <+: packets reports := by
      rw [h.packets_eq]
      exact ⟨h.isSome, List.prefix_append _ _⟩
    rw [h.inUse.countP_isOpened, if_pos hopened]

namespace Standing

theorem lifecycle (h : Standing r reports e) : Lifecycle r reports e := by
  cases h with
  | head h => exact h.lifecycle
  | body stream earlier h => exact h.lifecycle
  | closed h phase_eq bodiless => exact h

/-- The blank line opens the body, or is the last packet of a request without one. -/
theorem endFields (hgoing : Going reports) (hsource : e.source = r.body) (hhistory : e.history = [])
    (hpackets : packets reports = r.headPackets) : Standing r reports e.endFields := by
  unfold Encoding.endFields
  split
  · rename_i hnone
    have hbody : r.body = none := hsource.symm.trans hnone
    have hbodiless : r.headPackets ++ r.bodyPackets = r.headPackets := by
      rw [bodyPackets, bodyAnswers, hbody]
      exact List.append_nil _
    have hunopened : ¬ (r.body.isSome = true ∧ r.headPackets <+: packets reports) := by
      rw [hbody]
      exact fun h => Bool.noConfusion h.1
    refine .closed (.of_going hgoing ?_ ?_ (.inl hhistory)) rfl fun _ => ⟨hhistory, ?_⟩
    · rw [hpackets]
      exact List.prefix_append _ _
    · show e.history.countP _ = _
      rw [hhistory, if_neg hunopened]
      rfl
    · rw [hbodiless, hpackets]
  · rename_i body hsome
    have hbody : r.body = some body := hsource.symm.trans hsome
    have hopened : history ⟨e.source, .body body.open, .opened :: e.record⟩ =
        e.history ++ [.opened] := List.reverse_cons
    rw [hhistory] at hopened
    refine .body _ [] ⟨hgoing, ?_, rfl, ⟨[], hopened⟩, ?_, ?_⟩
    · rw [hbody]
      rfl
    · rw [hpackets]
      exact (List.append_nil _).symm
    · rw [bodyAnswers, hbody]
      rfl

theorem pull_of_head (h : InHead r reports e) :
    Standing r (reports ++ [.pulled e.next.1]) e.next.2 := by
  obtain ⟨packet, rest, hcons⟩ := List.exists_cons_of_ne_nil h.headLeft_ne_nil
  obtain ⟨hfirst, hnext⟩ := next_of_headLeft hcons
  have hmem : packet ∈ r.headPackets := by
    rw [← h.packets_eq, hcons]
    exact List.mem_append_right _ List.mem_cons_self
  have hne : packet ≠ [] := ne_nil_of_mem_headPackets hmem
  have hgoing : Going (reports ++ [.pulled e.next.1]) := by
    rw [hfirst]
    exact going_append.2 ⟨h.going, beq_false_of_ne hne⟩
  have hpackets : packets (reports ++ [.pulled e.next.1]) ++ rest = r.headPackets := by
    rw [hfirst, packets_append, Report.answer, packetsIn_packet hne, List.append_assoc,
      List.singleton_append, ← hcons, h.packets_eq]
  obtain ⟨rfl, hrest, hsource, hrecord⟩ | ⟨rfl, hend⟩ := hnext
  · refine .head ⟨hgoing, hsource.trans h.source_eq, ?_, hrest, hpackets⟩
    rw [history, hrecord]
    exact h.history_eq
  · rw [List.append_nil] at hpackets
    rw [hend]
    exact endFields hgoing h.source_eq h.history_eq hpackets

section InBody
variable {stream : Body.Stream} {earlier : List (Option (Except Error Octets))}

/-- The first end closes the body, which is then neither opened nor pulled again. -/
theorem closed_of_body {events : List BodyEvent} (h : InBody r stream earlier reports e)
    (hend : report.isEnd = true) (hphase : e'.phase = .closed)
    (hhistory : e'.history = e.history ++ events)
    (hevents : events.countP BodyEvent.isOpened = 0)
    (hconcludes : Concludes report (e.history ++ events))
    (hexhausted : ∀ result, report = .pulled result →
      packets reports = r.headPackets ++ r.bodyPackets) :
    Standing r (reports ++ [report]) e' := by
  rw [← hhistory] at hconcludes
  refine .closed (h.lifecycle.append_end h.going hend ?_ ?_) hphase fun hgoing => ?_
  · rw [hhistory, List.countP_append, hevents, Nat.add_zero]
  · exact ⟨hconcludes, hexhausted, List.forall_mem_nil _⟩
  · exact absurd hgoing (not_going_append hend)

/-- Another packet of the body, its end, or its failure. -/
theorem pull_of_body (h : InBody r stream earlier reports e) :
    Standing r (reports ++ [.pulled e.next.1]) e.next.2 := by
  have hpull := stream.pull_eq
  have hexhausted (result : Except Error Octets)
      (hanswers : (answers stream).1 = [some result]) (hend : packetsIn [some result] = []) :
      packets reports = r.headPackets ++ r.bodyPackets := by
    rw [h.packets_eq, bodyPackets, h.answers_eq, hanswers, packetsIn_append, hend, List.append_nil]
  obtain ⟨source, phase, record⟩ := e
  obtain rfl : phase = .body stream := h.phase_eq
  cases hnext : stream.next with
  | mk result stream' =>
    rw [hnext] at hpull
    have hclosed : history (closeBody ⟨source, .body stream', .pulled result :: record⟩ stream') =
        history ⟨source, .body stream, record⟩ ++ [.pulled result, .closed stream'.close.1] := by
      simp [history, closeBody]
    simp only [next, hnext]
    cases result with
    | ok packet =>
      cases packet with
      | cons o os =>
        have hne : o :: os ≠ [] := List.cons_ne_nil o os
        refine .body _ (earlier ++ [some (.ok (o :: os))])
          ⟨going_append.2 ⟨h.going, rfl⟩, h.isSome, rfl, ?_, ?_, ?_⟩
        · rw [history, List.reverse_cons]
          exact h.inUse.pulled _
        · rw [packets_append, h.packets_eq, packetsIn_append, List.append_assoc, Report.answer]
        · rw [h.answers_eq, answers_of_packet hpull hne, List.append_assoc, List.singleton_append]
      | nil =>
        have hanswers : (answers stream).1 = [some (.ok [])] := by rw [answers_of_end hpull rfl]
        exact closed_of_body h rfl rfl hclosed rfl (.pulled h.inUse _ _)
          fun _ _ => hexhausted _ hanswers rfl
    | error cause =>
      have hanswers : (answers stream).1 = [some (.error cause)] := by
        rw [answers_of_end hpull rfl]
      exact closed_of_body h rfl rfl hclosed rfl (.pulled h.inUse _ _)
        fun _ _ => hexhausted _ hanswers rfl

theorem stop_of_body (h : InBody r stream earlier reports e) :
    Standing r (reports ++ [.stopped e.close.1]) e.close.2 := by
  have hclose : e.close = (stream.close.1, e.closeBody stream) := by rw [close, h.phase_eq]
  have hhistory : (e.closeBody stream).history = e.history ++ [.closed stream.close.1] :=
    List.reverse_cons
  rw [hclose]
  exact closed_of_body h rfl rfl hhistory rfl (.stopped h.inUse _)
    fun _ hresult => by simp at hresult

end InBody

theorem stop_of_head (h : InHead r reports e) :
    Standing r (reports ++ [.stopped e.close.1]) e.close.2 := by
  have hclose : e.close = (.ok (), { e with phase := .closed }) := by
    unfold close
    split
    · rename_i stream hphase
      exact absurd (by rw [headLeft, hphase]) h.headLeft_ne_nil
    · rfl
  have hhistory : history { e with phase := .closed } = [] := h.history_eq
  have hconcludes : Concludes (.stopped (.ok ())) (history { e with phase := .closed }) := by
    rw [hhistory]
    exact .unopened
  rw [hclose]
  refine .closed (h.lifecycle.append_end h.going rfl rfl ?_) rfl fun hgoing => ?_
  · exact ⟨hconcludes, fun _ hresult => by simp at hresult, List.forall_mem_nil _⟩
  · exact absurd hgoing (not_going_append rfl)

/-- A request that is closed tells its end, if it has not yet, and nothing else. -/
theorem append_silent (h : Lifecycle r reports e) (hphase : e.phase = .closed)
    (hbodiless : Going reports →
      e.history = [] ∧ packets reports = r.headPackets ++ r.bodyPackets)
    (hsilent : report.IsSilent) : Standing r (reports ++ [report]) e := by
  refine .closed ?_ hphase fun hgoing => absurd hgoing (not_going_append hsilent.isEnd)
  by_cases hgoing : Going reports
  · obtain ⟨hhistory, hpackets⟩ := hbodiless hgoing
    have hconcludes : Concludes report e.history := by
      rw [hhistory]
      obtain rfl | rfl := hsilent
      · exact .bodiless
      · exact .unopened
    exact h.append_end hgoing hsilent.isEnd rfl
      ⟨hconcludes, fun _ _ => hpackets, List.forall_mem_nil _⟩
  · exact h.append_silent hgoing hsilent

theorem perform (h : Standing r reports e) (call : Call) :
    Standing r (reports ++ [(perform call e).1]) (Encoding.perform call e).2 := by
  cases h with
  | head h =>
    cases call with
    | pull => exact pull_of_head h
    | stop => exact stop_of_head h
  | body stream earlier h =>
    cases call with
    | pull => exact pull_of_body h
    | stop => exact stop_of_body h
  | closed h phase_eq bodiless =>
    cases call with
    | pull =>
      have hnext : e.next = (.ok [], e) := by rw [next, phase_eq]
      rw [Encoding.perform, hnext]
      exact append_silent h phase_eq bodiless (.inl rfl)
    | stop =>
      have hclose : e.close = (.ok (), e) := by
        obtain ⟨source, phase, record⟩ := e
        obtain rfl : phase = .closed := phase_eq
        rfl
      rw [Encoding.perform, hclose]
      exact append_silent h phase_eq bodiless (.inr rfl)

theorem run (h : Standing r reports e) (calls : List Call) :
    Standing r (reports ++ (run calls e).1) (Encoding.run calls e).2 := by
  induction calls generalizing reports e with
  | nil =>
    rw [Encoding.run, List.append_nil]
    exact h
  | cons call calls ih =>
    have hrun := ih (h.perform call)
    rw [List.append_assoc] at hrun
    exact hrun

end Standing

/-- What the pulls answer with does not hang on whether the body can be closed. -/
theorem answers_run_quiet (calls : List Call) (e : Encoding) :
    (run calls e.quiet).1.map Report.answer = (run calls e).1.map Report.answer := by
  induction calls generalizing e with
  | nil => rfl
  | cons call calls ih =>
    cases call with
    | pull =>
      have hnext := e.next_quiet
      show some e.quiet.next.1 :: (run calls e.quiet.next.2).1.map Report.answer = _
      rw [hnext, ih]
      rfl
    | stop =>
      show none :: (run calls e.quiet.close.2).1.map Report.answer = _
      rw [e.close_quiet, ih]
      rfl

theorem quiet_encode_withCloseError (r : Request) (closeError : Option IoError) :
    (r.withCloseError closeError).encode.quiet = r.encode.quiet := by
  obtain ⟨method, uri, headers, body⟩ := r
  match body with
  | none => rfl
  | some (.inMemory b) => rfl
  | some (.scripted b) => rfl

/-- However a request is pulled and stopped, its packets come in order and its body is settled once.
Whether the body can be closed is nothing that a pull would tell. -/
theorem run_lifecycle (r : Request) (calls : List Call) :
    Lifecycle r (run calls r.encode).1 (run calls r.encode).2 ∧
      ∀ closeError, (run calls (r.withCloseError closeError).encode).1.map Report.answer =
        (run calls r.encode).1.map Report.answer := by
  refine ⟨((standing_encode r).run calls).lifecycle, fun closeError => ?_⟩
  rw [← answers_run_quiet calls (encode _), quiet_encode_withCloseError, answers_run_quiet]

end Encoding
end HttpWire.Request
