import HttpWire.Exchange
import HttpWire.Connection.Script
import HttpWire.Proofs.Stepwise.Runs

/-! Cleanup that cannot fail. Every step of an exchange is the same when neither closing the body of
the request nor shutting the connection down can go wrong, so their failures change no result. -/
namespace HttpWire

namespace Body

/-- The same body, whose closing fails in this way or not at all. -/
def withCloseError (closeError : Option IoError) : Body → Body
  | inMemory b => inMemory b
  | scripted b => scripted { b with closeError }

def Stream.quiet : Stream → Stream
  | inMemory s => inMemory s
  | scripted packets _ => scripted packets none

theorem open_quiet (b : Body) : (b.withCloseError none).open = b.open.quiet := by
  cases b <;> rfl

theorem Stream.next_quiet (s : Stream) : s.quiet.next = (s.next.1, s.next.2.quiet) := by
  match s with
  | inMemory s => rfl
  | scripted [] c => rfl
  | scripted (.ok p :: packets) c => rfl
  | scripted (.error e :: packets) c => rfl

theorem Stream.close_quiet (s : Stream) : s.quiet.close.1 = .ok () := by
  cases s <;> rfl

end Body

namespace Request

/-- The same request, whose body fails to close in this way or not at all. -/
def withCloseError (closeError : Option IoError) (r : Request) : Request :=
  { r with body := r.body.map (Body.withCloseError closeError) }

def BodyEvent.quiet : BodyEvent → BodyEvent
  | .closed _ => .closed (.ok ())
  | e => e

def Phase.quiet : Phase → Phase
  | .body stream => .body stream.quiet
  | phase => phase

namespace Encoding

def quiet (e : Encoding) : Encoding :=
  ⟨e.source.map (Body.withCloseError none), e.phase.quiet, e.record.map BodyEvent.quiet⟩

theorem closeBody_quiet (e : Encoding) (stream : Body.Stream) :
    e.quiet.closeBody stream.quiet = (e.closeBody stream).quiet := by
  rw [closeBody, stream.close_quiet]
  rfl

theorem endFields_quiet (e : Encoding) : e.quiet.endFields = e.endFields.quiet := by
  obtain ⟨source, phase, record⟩ := e
  cases source with
  | none => rfl
  | some body =>
    show Encoding.mk _ (.body (body.withCloseError none).open) _ = _
    rw [body.open_quiet]
    rfl

theorem next_quiet (e : Encoding) : e.quiet.next = (e.next.1, e.next.2.quiet) := by
  obtain ⟨source, phase, record⟩ := e
  cases phase with
  | requestLine line fields => rfl
  | fields rest =>
    cases rest with
    | nil => exact Prod.ext rfl (endFields_quiet ⟨source, .fields [], record⟩)
    | cons field rest => rfl
  | body stream =>
    simp only [next, quiet, Phase.quiet, stream.next_quiet]
    obtain ⟨result, stream'⟩ := stream.next
    match result with
    | .ok (o :: os) => rfl
    | .ok [] => exact Prod.ext rfl (closeBody_quiet ⟨source, _, .pulled _ :: record⟩ stream')
    | .error e => exact Prod.ext rfl (closeBody_quiet ⟨source, _, .pulled _ :: record⟩ stream')
  | closed => rfl

theorem close_quiet (e : Encoding) : e.quiet.close.2 = e.close.2.quiet := by
  obtain ⟨source, phase, record⟩ := e
  cases phase with
  | body stream => exact closeBody_quiet _ stream
  | requestLine line fields => rfl
  | fields rest => rfl
  | closed => rfl

end Encoding
end Request

namespace Script

def Event.quiet : Event → Event
  | .shutdown _ => .shutdown (.ok ())
  | e => e

def quiet (s : Script) : Script :=
  { s with shutdownError := none, record := s.record.map Event.quiet }

theorem read_quiet (n : Nat) (s : Script) :
    s.quiet.read n = ((s.read n).1, (s.read n).2.quiet) := by
  obtain ⟨reads, writes, flushError, shutdownError, held, record⟩ := s
  cases held with
  | cons o os => rfl
  | nil =>
    match reads with
    | [] => rfl
    | .data b :: rest => rfl
    | .failure e :: rest => rfl
    | .notReady :: rest => rfl

theorem write_quiet (b : Octets) (s : Script) :
    s.quiet.write b = ((s.write b).1, (s.write b).2.quiet) := by
  obtain ⟨reads, writes, flushError, shutdownError, held, record⟩ := s
  match writes with
  | [] => rfl
  | .accept n :: rest => rfl
  | .failure e :: rest => rfl
  | .notReady :: rest => rfl

theorem flush_quiet (s : Script) : s.quiet.flush = (s.flush.1, s.flush.2.quiet) := rfl

end Script

namespace PacketReader

theorem read_eq (n : Nat) (s : Script) : read n s =
    match Connection.read n s with
    | (.ready (.error .interrupted), s') => read n s'
    | (.ready (.error e), s') => (.ready (.error (.io e)), s')
    | (.ready (.ok b), s') => (.ready (.ok b), s')
    | (.again, s') => (.again, s')
    | (.stalled, s') => (.stalled, s') := by
  rw [read]
  split <;> simp_all

theorem read_quiet (n : Nat) (s : Script) :
    read n s.quiet = ((read n s).1, (read n s).2.quiet) := by
  have hquiet {s u : Script} {p : Progress (Except IoError Octets)}
      (h : Connection.read n s = (p, u)) : Connection.read n s.quiet = (p, u.quiet) :=
    (Script.read_quiet n s).trans (congrArg (fun t => (t.1, t.2.quiet)) h)
  fun_induction read n s with
  | case1 s u hread hlt ih =>
    rw [read_eq, hquiet hread]
    exact ih
  | case2 s e u hne hread =>
    rw [read_eq, hquiet hread]
    cases e with
    | interrupted => exact absurd rfl hne
    | _ => rfl
  | case3 s b u hread => rw [read_eq, hquiet hread]
  | case4 s u hread => rw [read_eq, hquiet hread]
  | case5 s u hread => rw [read_eq, hquiet hread]

theorem pull_quiet (r : PacketReader) (s : Script) :
    r.pull s.quiet = ((r.pull s).1, (r.pull s).2.quiet) := by
  unfold pull
  split
  · exact read_quiet _ s
  · rfl

theorem shutdown_quiet (r : PacketReader) (s : Script) :
    (r.shutdown s.quiet).2.2 = (r.shutdown s).2.2.quiet := by
  unfold shutdown
  split <;> rfl

end PacketReader

theorem HeadReader.step_quiet (r : HeadReader) (s : Script) :
    r.step s.quiet = ((r.step s).1, (r.step s).2.1, (r.step s).2.2.quiet) := by
  unfold step
  rw [PacketReader.pull_quiet]
  obtain ⟨p, t⟩ := r.source.pull s
  rcases p with (e | (_ | ⟨o, os⟩)) | _ | _ <;> rfl

namespace RequestWriter

def quiet (w : RequestWriter) : RequestWriter := { w with encoding := w.encoding.quiet }

theorem pullStep_quiet (w : RequestWriter) :
    w.quiet.pullStep = (w.pullStep.1, w.pullStep.2.quiet) := by
  simp only [pullStep, quiet, w.encoding.next_quiet]
  obtain ⟨result, encoding⟩ := w.encoding.next
  rcases result with e | (_ | ⟨o, os⟩) <;> rfl

theorem step_quiet (w : RequestWriter) (s : Script) :
    w.quiet.step s.quiet = ((w.step s).1, (w.step s).2.1.quiet, (w.step s).2.2.quiet) := by
  obtain ⟨encoding, stage, written⟩ := w
  cases stage with
  | pull =>
    have hpull := pullStep_quiet ⟨encoding, .pull, written⟩
    show (Progress.ready (quiet _).pullStep.1, (quiet _).pullStep.2, s.quiet) = _
    rw [hpull]
    rfl
  | write packet =>
    have hwrite : Connection.write packet s.quiet =
      ((Connection.write packet s).1, (Connection.write packet s).2.quiet) :=
        Script.write_quiet packet s
    simp only [step, quiet, hwrite]
    obtain ⟨p, t⟩ := Connection.write packet s
    rcases p with (e | (_ | n)) | _ | _ <;> rfl
  | flush =>
    have hflush : Connection.flush s.quiet =
      ((Connection.flush s).1, (Connection.flush s).2.quiet) := Script.flush_quiet s
    simp only [step, quiet, hflush]
    obtain ⟨result, t⟩ := Connection.flush s
    cases result <;> rfl

end RequestWriter

namespace Exchange

def Stage.quiet : Stage → Stage
  | .writing writer => .writing writer.quiet
  | .abandoning encoding cause => .abandoning encoding.quiet cause
  | .reading encoding reader => .reading encoding.quiet reader
  | .ending encoding source result => .ending encoding.quiet source result

def quiet (x : Exchange) : Exchange := { x with stage := x.stage.quiet }

theorem conclude_quiet (x : Exchange) (encoding : Request.Encoding) (source : PacketReader)
    (result : Except Error Response) : x.quiet.conclude encoding.quiet source result =
      ((x.conclude encoding source result).1, (x.conclude encoding source result).2.quiet) := by
  match result with
  | .error e => rfl
  | .ok ⟨status, reason, headers, none⟩ => rfl
  | .ok ⟨status, reason, headers, some body⟩ => rfl

theorem step_quiet (x : Exchange) (s : Script) :
    x.quiet.step s.quiet = ((x.step s).1, (x.step s).2.1.quiet, (x.step s).2.2.quiet) := by
  obtain ⟨method, limits, stage⟩ := x
  cases stage with
  | writing writer =>
    simp only [step, quiet, Stage.quiet, writer.step_quiet]
    obtain ⟨p, writer', t⟩ := writer.step s
    rcases p with (e | (_ | n)) | _ | _ <;> rfl
  | abandoning encoding cause =>
    simp only [step, quiet, Stage.quiet, encoding.close_quiet]
    rfl
  | reading encoding reader =>
    simp only [step, quiet, Stage.quiet, reader.step_quiet]
    obtain ⟨p, reader', t⟩ := reader.step s
    rcases p with (e | (_ | ⟨head, leftover⟩)) | _ | _
    · rfl
    · rfl
    · have hconclude := conclude_quiet ⟨method, limits, .reading encoding reader⟩ encoding
        reader'.source (respond method reader'.source head leftover)
      simp only [quiet, Stage.quiet] at hconclude
      simp only [hconclude]
    · rfl
    · rfl
  | ending encoding source result =>
    simp only [step, quiet, Stage.quiet, source.shutdown_quiet]

theorem run_quiet (x : Exchange) (s : Script) :
    x.quiet.run s.quiet = ((x.run s).1, (x.run s).2.1.quiet, (x.run s).2.2.quiet) :=
  Stepwise.drive_map (f := fun t : Exchange × Script => (t.1.quiet, t.2.quiet))
    (fun t => step_quiet t.1 t.2) (x, s)

/-- What can go wrong with the cleanup alone has no part in the result. -/
theorem run_fst_eq {x y : Exchange} {s t : Script} (hx : x.quiet = y.quiet)
    (hs : s.quiet = t.quiet) : (x.run s).1 = (y.run t).1 := by
  have hleft := run_quiet x s
  rw [hx, hs, run_quiet y t] at hleft
  exact (congrArg Prod.fst hleft).symm

theorem quiet_new_withCloseError (r : Request) (limits : Limits) (closeError : Option IoError) :
    (new (r.withCloseError closeError) limits).quiet = (new r limits).quiet := by
  obtain ⟨method, uri, headers, body⟩ := r
  match body with
  | none => rfl
  | some (.inMemory b) => rfl
  | some (.scripted b) => rfl

end Exchange
end HttpWire
