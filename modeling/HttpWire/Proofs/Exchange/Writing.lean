import HttpWire.Exchange.Writer
import HttpWire.Proofs.Connection.Events

/-! The steps by which a request is written. -/
namespace HttpWire.RequestWriter
open Script

/-- What one step can do: pull a packet, write what is left of one, or flush. -/
inductive Moves (w : RequestWriter) (s : Script) :
    Progress (Except Error (Step Nat)) → RequestWriter → Script → Prop
  | ended {encoding : Request.Encoding} (hstage : w.stage = .pull)
    (hnext : w.encoding.next = (.ok [], encoding)) :
    w.Moves s (.ready (.ok .more)) { w with encoding, stage := .flush } s
  | pulled {packet : Octets} {encoding : Request.Encoding} (hstage : w.stage = .pull)
    (hne : packet ≠ []) (hnext : w.encoding.next = (.ok packet, encoding)) :
    w.Moves s (.ready (.ok .more)) { w with encoding, stage := .write packet } s
  | failed {cause : Error} {encoding : Request.Encoding} (hstage : w.stage = .pull)
    (hnext : w.encoding.next = (.error cause, encoding)) :
    w.Moves s (.ready (.error cause)) { w with encoding } s
  | accepted {packet : Octets} {n : Nat} {s' : Script} (hstage : w.stage = .write packet)
    (hwrite : s.write packet = (.ready (.ok (n + 1)), s')) :
    w.Moves s (.ready (.ok .more)) (w.accept packet (n + 1)) s'
  | unaccepted {packet : Octets} {s' : Script} (hstage : w.stage = .write packet)
    (hwrite : s.write packet = (.ready (.ok 0), s')) :
    w.Moves s (.ready (.error (.io .writeZero))) w s'
  | unwritten {packet : Octets} {cause : IoError} {s' : Script} (hstage : w.stage = .write packet)
    (hwrite : s.write packet = (.ready (.error cause), s')) :
    w.Moves s (.ready (.error (.io cause))) w s'
  | putOff {packet : Octets} {s' : Script} (hstage : w.stage = .write packet)
    (hwrite : s.write packet = (.again, s')) : w.Moves s .again w s'
  | flushed (hstage : w.stage = .flush) (hflush : s.flush.1 = .ok ()) :
    w.Moves s (.ready (.ok (.done w.written))) w s.flush.2
  | unflushed {cause : IoError} (hstage : w.stage = .flush) (hflush : s.flush.1 = .error cause) :
    w.Moves s (.ready (.error (.io cause))) w s.flush.2

theorem moves_step (w : RequestWriter) (s : Script) :
    w.Moves s (w.step s).1 (w.step s).2.1 (w.step s).2.2 := by
  unfold step
  split
  · rename_i hstage
    unfold pullStep
    split
    · exact .ended hstage ‹_›
    · exact .pulled hstage (List.cons_ne_nil _ _) ‹_›
    · exact .failed hstage ‹_›
  · rename_i packet hstage
    split
    · exact .unaccepted hstage ‹_›
    · exact .accepted hstage ‹_›
    · exact .unwritten hstage ‹_›
    · exact .putOff hstage ‹_›
    · rename_i hwrite
      exact absurd hwrite Script.write_ne_stalled
  · rename_i hstage
    split
    all_goals
      rename_i hflush
      obtain ⟨hresult, rfl⟩ := Prod.mk.inj hflush
    · exact .flushed hstage hresult
    · exact .unflushed hstage hresult

/-- What is left of the packet that is being written. -/
def pending (w : RequestWriter) : Octets :=
  match w.stage with
  | .write packet => packet
  | _ => []

theorem pending_accept (w : RequestWriter) (packet : Octets) (n : Nat) :
    (w.accept packet n).pending = packet.drop n := by
  unfold accept pending
  dsimp only
  split
  · rename_i hstage
    split at hstage
    · simp at hstage
    · exact (Stage.write.inj hstage).symm
  · rename_i hstage
    split at hstage
    · exact ‹_ = []›.symm
    · exact absurd rfl (hstage _)

theorem accept_stage_ne_flush (w : RequestWriter) (packet : Octets) (n : Nat) :
    (w.accept packet n).stage ≠ .flush := by
  unfold accept
  dsimp only
  split <;> simp

theorem accept_stage_ne_write_nil (w : RequestWriter) (packet : Octets) (n : Nat) :
    (w.accept packet n).stage ≠ .write [] := by
  unfold accept
  dsimp only
  split
  · exact Stage.noConfusion
  · rename_i hne
    exact fun hnil => hne (Stage.write.inj hnil)

end HttpWire.RequestWriter
