import HttpWire.Client
import HttpWire.Proofs.Exchange.Quiet
import HttpWire.Proofs.Exchange.Writing
import HttpWire.Proofs.Request.Lifecycle

/-! The order of an exchange: writes, a flush, reads, and whatever comes of them, a connection that
is shut down once or kept with the body of the response. -/
namespace HttpWire
open Script Stepwise

/-- A write that had something accepted. -/
def Script.Event.sends : Event → Bool
  | .write _ (.ok (_ + 1)) => true
  | _ => false

/-- Writes and a flush that went well, and reads. -/
def Sent (history : List Event) : Prop :=
  ∃ writes reads, history = writes ++ .flush (.ok ()) :: reads ∧
    (∀ e ∈ writes, e.sends = true) ∧ ∀ e ∈ reads, e.isRead = true

/-- The operations that led to a result, in order. Before the first read they are cut short only by
a failure, of the body or of one of them, and that failure is the result. -/
inductive LeadsTo (body : List Request.BodyEvent) : List Event → Except Error Response → Prop
  | bodyFailed {writes : List Event} {cause : Error} (hwrites : ∀ e ∈ writes, e.sends = true)
    (failed : .pulled (.error cause) ∈ body) : LeadsTo body writes (.error cause)
  | unwritten {writes : List Event} (hwrites : ∀ e ∈ writes, e.sends = true) (offered : Octets)
    (cause : IoError) : LeadsTo body (writes ++ [.write offered (.error cause)]) (.error (.io cause))
  | unaccepted {writes : List Event} (hwrites : ∀ e ∈ writes, e.sends = true)
    (offered : Octets) : LeadsTo body (writes ++ [.write offered (.ok 0)]) (.error (.io .writeZero))
  | unflushed {writes : List Event} (hwrites : ∀ e ∈ writes, e.sends = true) (cause : IoError) :
    LeadsTo body (writes ++ [.flush (.error cause)]) (.error (.io cause))
  | sent {history : List Event} (hsent : Sent history)
    (result : Except Error Response) : LeadsTo body history result

theorem LeadsTo.mono {body body' : List Request.BodyEvent} {history : List Event}
    {result : Except Error Response} (h : LeadsTo body history result) (hbody : body ⊆ body') :
    LeadsTo body' history result := by
  cases h with
  | bodyFailed hwrites failed => exact .bodyFailed hwrites (hbody failed)
  | unwritten hwrites offered cause => exact .unwritten hwrites offered cause
  | unaccepted hwrites offered => exact .unaccepted hwrites offered
  | unflushed hwrites cause => exact .unflushed hwrites cause
  | sent hsent result => exact .sent hsent result

/-- Every operation of an exchange, in order. Only the body of a response keeps the connection. -/
inductive Orderly (body : List Request.BodyEvent) :
    List Event → Except Error Response → Prop
  | kept {history : List Event} {response : Response}
    (leads : LeadsTo body history (.ok response)) (hbody : response.body.isSome = true) :
    Orderly body history (.ok response)
  | ended {history : List Event} {result : Except Error Response}
    (leads : LeadsTo body history result)
    (hbody : ∀ response, result = .ok response → response.body = none)
    (verdict : Except IoError Unit) :
    Orderly body (history ++ [.shutdown verdict, .release]) result

theorem sent_of_extends {s t : Script} (h : Sent s.history) (ht : s.Extends Event.isRead t) :
    Sent t.history := by
  obtain ⟨writes, reads, hs, hwrites, hreads⟩ := h
  obtain ⟨events, ht, hevents⟩ := ht
  refine ⟨writes, reads ++ events, ?_, hwrites, List.forall_mem_append.2 ⟨hreads, hevents⟩⟩
  rw [ht, hs, List.append_assoc, List.cons_append]

namespace RequestWriter
variable {w : RequestWriter} {s : Script}

/-- Nothing was done yet but to write. The flush comes when the body is closed. -/
structure Underway (w : RequestWriter) (s : Script) : Prop where
  writes : ∀ e ∈ s.history, e.sends = true
  tidy : w.encoding.Tidy
  flush : w.stage = .flush → Request.Settled w.encoding.history

/-- What writing a request comes to. -/
def Written : Except Error Nat → RequestWriter × Script → Prop
  | .ok _, (w, s) => Sent s.history ∧ Request.Settled w.encoding.history
  | .error e, (w, s) => LeadsTo w.encoding.history s.history (.error e) ∧ w.encoding.Tidy

theorem Underway.goes {w' : RequestWriter} {s' : Script} {p : Progress (Except Error (Step Nat))}
    (h : w.Underway s) (hm : w.Moves s p w' s') :
    Goes (fun t => t.1.Underway t.2) Written (p, w', s') := by
  obtain ⟨htidy, hend⟩ := h.tidy.next
  cases hm with
  | @ended encoding hstage hnext =>
    rw [hnext] at htidy hend
    have hclosed : encoding.phase = .closed := hend rfl
    refine ⟨h.writes, htidy, fun _ => htidy.settled fun stream hbody => ?_⟩
    simp [hclosed] at hbody
  | pulled hstage hne hnext =>
    rw [hnext] at htidy
    exact ⟨h.writes, htidy, Stage.noConfusion⟩
  | failed hstage hnext =>
    rw [hnext] at htidy
    exact ⟨.bodyFailed h.writes (Request.Encoding.pulled_of_next_error hnext), htidy⟩
  -- a packet that is accepted, whole or in part, is never followed by the flush at once
  | @accepted packet n s' hstage hwrite =>
    have hwrites : ∀ e ∈ s'.history, e.sends = true := by
      rw [history_of_write hwrite]
      exact List.forall_mem_append.2 ⟨h.writes, List.forall_mem_singleton.2 rfl⟩
    exact ⟨hwrites, h.tidy, fun hflush => absurd hflush (accept_stage_ne_flush w packet _)⟩
  | @unaccepted packet s' hstage hwrite =>
    refine ⟨?_, h.tidy⟩
    rw [history_of_write hwrite]
    exact .unaccepted h.writes packet
  | @unwritten packet cause s' hstage hwrite =>
    refine ⟨?_, h.tidy⟩
    rw [history_of_write hwrite]
    exact .unwritten h.writes packet cause
  | putOff hstage hwrite =>
    have hhistory := history_of_write_again hwrite
    refine ⟨?_, h.tidy, h.flush⟩
    rw [hhistory]
    exact h.writes
  | flushed hstage hflush =>
    have hhistory := history_flush s
    rw [hflush] at hhistory
    exact ⟨⟨s.history, [], hhistory, h.writes, List.forall_mem_nil _⟩, h.flush hstage⟩
  | @unflushed cause hstage hflush =>
    have hhistory := history_flush s
    rw [hflush] at hhistory
    refine ⟨?_, h.tidy⟩
    rw [hhistory]
    exact .unflushed h.writes cause

theorem Underway.step (h : w.Underway s) :
    Goes (fun t => t.1.Underway t.2) Written (w.step s) := h.goes (w.moves_step s)

end RequestWriter

namespace HeadReader
variable {r : HeadReader} {s : Script}

/-- The request is out, and since then there were only reads. -/
structure Awaiting (r : HeadReader) (s : Script) : Prop where
  isOpen : r.source.isOpen = true
  sent : Sent s.history

theorem Awaiting.digest (h : r.Awaiting s) (packet : Octets) :
    Goes (fun t => t.1.Awaiting t.2) (fun _ t => t.1.Awaiting t.2)
      (.ready (r.digest packet).1, (r.digest packet).2, s) := by
  unfold HeadReader.digest
  dsimp only
  split
  · exact ⟨h.isOpen, h.sent⟩
  · exact ⟨h.isOpen, h.sent⟩
  · exact ⟨h.isOpen, h.sent⟩

theorem Awaiting.step (h : r.Awaiting s) :
    Goes (fun t => t.1.Awaiting t.2) (fun _ t => t.1.Awaiting t.2) (r.step s) := by
  unfold HeadReader.step
  split
  all_goals
    rename_i hpull
    have hsent := sent_of_extends h.sent (PacketReader.extends_pull hpull)
  · exact ⟨h.isOpen, hsent⟩
  · have hawaiting : Awaiting { r with waiting := false } _ := ⟨h.isOpen, hsent⟩
    exact hawaiting.digest _
  · exact ⟨h.isOpen, hsent⟩
  · exact ⟨h.isOpen, hsent⟩
  · exact PacketReader.pull_ne_stalled hpull

end HeadReader

namespace Exchange
variable {x : Exchange} {s : Script}

/-- What was done before each stage. -/
def Stage.InOrder (s : Script) : Stage → Prop
  | .writing writer => writer.Underway s
  | .abandoning encoding cause =>
    LeadsTo encoding.history s.history (.error cause) ∧ encoding.Tidy
  | .reading encoding reader => reader.Awaiting s ∧ Request.Settled encoding.history
  | .ending encoding source result =>
    source.isOpen = true ∧ LeadsTo encoding.history s.history result ∧
    (∀ response, result = .ok response → response.body = none) ∧ Request.Settled encoding.history

/-- The operations were in order, and the body of the request was closed if it was opened. -/
structure Over (result : Except Error Response) (x : Exchange) (s : Script) : Prop where
  orderly : Orderly x.encoding.history s.history result
  settled : Request.Settled x.encoding.history

theorem goes_conclude {encoding : Request.Encoding} {source : PacketReader}
    (result : Except Error Response) (hopen : source.isOpen = true) (hsent : Sent s.history)
    (hx : x.encoding = encoding) (hsettled : Request.Settled encoding.history) :
    Goes (fun t => t.1.stage.InOrder t.2) (fun result t => Over result t.1 t.2)
      (.ready (x.conclude encoding source result).1, (x.conclude encoding source result).2, s) := by
  obtain ⟨response, -, hbody, hconclude⟩ | ⟨hbody, hconclude⟩ :=
    x.conclude_cases encoding source result
  · rw [hconclude]
    refine ⟨.kept (.sent hsent _) hbody, ?_⟩
    rw [hx]
    exact hsettled
  · rw [hconclude]
    exact ⟨hopen, .sent hsent result, hbody, hsettled⟩

theorem Stage.InOrder.step (h : x.stage.InOrder s) :
    Goes (fun t => t.1.stage.InOrder t.2) (fun result t => Over result t.1 t.2) (x.step s) := by
  unfold Exchange.step
  split
  · rename_i writer hx
    rw [hx] at h
    have hgoes := RequestWriter.Underway.step h
    split
    all_goals
      rename_i hw
      rw [hw] at hgoes
    · exact hgoes
    · exact ⟨⟨rfl, hgoes.1⟩, hgoes.2⟩
    · exact hgoes
    · exact hgoes
    · exact hgoes
  · rename_i encoding cause hx
    rw [hx] at h
    obtain ⟨hleads, htidy⟩ := h
    have hhistory := s.history_shutdown_release
    refine ⟨?_, htidy.close⟩
    dsimp only [Connection.shutdown, Connection.release]
    rw [hhistory]
    -- closing the body adds to its history, so a pull that failed is still in it
    have hclosed := hleads.mono encoding.history_subset_close
    exact .ended hclosed (fun response hresponse => by simp at hresponse) _
  · rename_i encoding reader hx
    rw [hx] at h
    obtain ⟨hawaiting, hsettled⟩ := h
    have hgoes := hawaiting.step
    have hencoding : x.encoding = encoding := by rw [Exchange.encoding, hx]
    split
    all_goals
      rename_i hr
      rw [hr] at hgoes
    · exact ⟨hgoes, hsettled⟩
    · exact goes_conclude _ hgoes.isOpen hgoes.sent hencoding hsettled
    · exact goes_conclude (.error _) hgoes.isOpen hgoes.sent hencoding hsettled
    · exact ⟨hgoes, hsettled⟩
    · exact hgoes
  · rename_i encoding source result hx
    rw [hx] at h
    obtain ⟨hopen, hleads, hbody, hsettled⟩ := h
    have hencoding : x.encoding = encoding := by rw [Exchange.encoding, hx]
    have hover : Over result x (source.shutdown s).2.2 := by
      constructor
      · rw [PacketReader.history_shutdown hopen, hencoding]
        exact .ended hleads hbody _
      · rw [hencoding]
        exact hsettled
    cases result with
    | error e => exact hover
    | ok response => exact hover

theorem exists_run_eq (r : Request) (limits : Limits) (reads : List ReadItem)
    (writes : List WriteItem) (flushError shutdownError : Option IoError) :
    ∃ result x s, (Exchange.new r limits).run (.new reads writes flushError shutdownError) =
      (some result, x, s) ∧ Over result x s := by
  have hstart : (Exchange.new r limits).stage.InOrder
      (.new reads writes flushError shutdownError) := by
    refine ⟨?_, Request.Encoding.tidy_encode r, fun hflush => ?_⟩
    · exact List.forall_mem_nil _
    · simp [RequestWriter.new] at hflush
  obtain ⟨result, ⟨x, s⟩, hrun, hover⟩ := exists_drive_eq
    (P := fun t : Exchange × Script => t.1.stage.InOrder t.2)
    (Q := fun result t => Over result t.1 t.2) (fun t h => h.step)
    (m := (Exchange.new r limits, .new reads writes flushError shutdownError)) hstart
  exact ⟨result, x, s, hrun, hover⟩

end Exchange

/-- Once it has a connection, an exchange comes to its end whatever becomes of its operations and of
the body of its request. It writes, flushes and reads in this order, shuts the connection down once
unless a body keeps it, and closes the body it has opened. A failure of that cleanup changes
nothing about the result. -/
theorem Client.run_orderly {c : Client} {r : Request}
    (hconnect : c.transport.connect r.uri = .ok ()) (reads : List ReadItem)
    (writes : List WriteItem) (flushError shutdownError : Option IoError) :
    ∃ x result x' s, c.start r = .ok x ∧
      x.run (.new reads writes flushError shutdownError : Script) = (some result, x', s) ∧
      Orderly x'.encoding.history s.history result ∧ Request.Settled x'.encoding.history ∧
      ∀ closeError shutdownError', ∃ y, c.start (r.withCloseError closeError) = .ok y ∧
        (y.run (.new reads writes flushError shutdownError' : Script)).1 = some result := by
  obtain ⟨result, x', s, hrun, hover⟩ :=
    Exchange.exists_run_eq r c.limits reads writes flushError shutdownError
  have hstart (r' : Request) (huri : r'.uri = r.uri) : c.start r' = .ok (.new r' c.limits) := by
    rw [start, huri, hconnect]
  refine ⟨_, result, x', s, hstart r rfl, hrun, hover.orderly, hover.settled, ?_⟩
  intro closeError shutdownError'
  refine ⟨_, hstart _ rfl, ?_⟩
  have hscript : (Script.new reads writes flushError shutdownError').quiet =
      (Script.new reads writes flushError shutdownError).quiet := rfl
  rw [Exchange.run_fst_eq (Exchange.quiet_new_withCloseError r c.limits closeError) hscript, hrun]

/-- The body fails at its second packet and cannot be closed, nor can the connection be shut
down. -/
theorem Client.run_orderly_of_failing_body :
    let c : Client := ⟨.direct, ⟨64, 32⟩, .running⟩
    let body : ScriptedBody :=
      ⟨[.ok [1, 2], .error .timedOut], none, .octetStream, some .other⟩
    let uri : Uri :=
      ⟨some "http", some "origin", "/up", some "n", by decide +kernel, by decide +kernel,
        by decide +kernel⟩
    let r : Request := ⟨.post, uri, .empty, some (.scripted body)⟩
    let writes : List WriteItem := [.accept 5, .notReady]
    ∃ x e x' s, c.transport.connect r.uri = .ok () ∧ c.start r = .ok x ∧
      x.run (.new [] writes none (some .brokenPipe) : Script) = (some (.error e), x', s) ∧
      Orderly x'.encoding.history s.history (.error e) ∧
      Request.Settled x'.encoding.history ∧
      s.count Event.isShutdown = 1 ∧ x'.encoding.history.length = 4 ∧
      ∀ closeError shutdownError', ∃ y, c.start (r.withCloseError closeError) = .ok y ∧
        (y.run (.new [] writes none shutdownError' : Script)).1 = some (.error e) := by
  intro c body uri r writes
  have hconnect : c.transport.connect r.uri = .ok () := rfl
  obtain ⟨x, result, x', s, hstart, hrun, horderly, hsettled, hcleanup⟩ :=
    run_orderly hconnect [] writes none (some .brokenPipe)
  have hx : c.start r = .ok (.new r c.limits) := rfl
  obtain rfl : x = .new r c.limits := Except.ok.inj (hstart.symm.trans hx)
  have hend : (fun t : Option (Except Error Response) × Exchange × Script =>
      ((t.1.bind Except.toOption).isSome, t.2.2.count Event.isShutdown,
        t.2.1.encoding.history.length))
      ((Exchange.new r c.limits).run (.new [] writes none (some .brokenPipe))) =
        (false, 1, 4) := by
    decide +kernel
  rw [hrun] at hend
  simp only [Option.bind_some, Prod.mk.injEq] at hend
  obtain ⟨hfails, hshutdowns, hevents⟩ := hend
  cases result with
  | ok response => simp [Except.toOption] at hfails
  | error e =>
    exact ⟨_, e, x', s, hconnect, hstart, hrun, horderly, hsettled, hshutdowns, hevents, hcleanup⟩

end HttpWire
