import HttpWire.Request.Encoding
import HttpWire.Stepwise

/-! Putting a request on the wire: each packet until it is accepted whole, then a flush. -/
namespace HttpWire
namespace RequestWriter

/-- What the next step does. -/
inductive Stage
  | pull
  /-- Write what is left of a packet. -/
  | write (packet : Octets)
  | flush
deriving DecidableEq, Repr

end RequestWriter

structure RequestWriter where
  encoding : Request.Encoding
  stage : RequestWriter.Stage
  /-- How many octets were accepted. -/
  written : Nat

namespace RequestWriter
variable {σ : Type} [Connection σ]

def new (encoding : Request.Encoding) : RequestWriter := ⟨encoding, .pull, 0⟩

/-- Pull the next packet. An empty one is the end of the request. -/
def pullStep (w : RequestWriter) : Except Error (Step Nat) × RequestWriter :=
  match w.encoding.next with
  | (.ok [], encoding) => (.ok .more, { w with encoding, stage := .flush })
  | (.ok (o :: os), encoding) => (.ok .more, { w with encoding, stage := .write (o :: os) })
  | (.error e, encoding) => (.error e, { w with encoding })

def accept (w : RequestWriter) (packet : Octets) (n : Nat) : RequestWriter :=
  { w with
    written := w.written + n
    stage := if packet.drop n = [] then .pull else .write (packet.drop n) }

/-- One step. A write that accepts nothing is a failure. The result is the number of octets
written. -/
def step (w : RequestWriter) (s : σ) : Progress (Except Error (Step Nat)) × RequestWriter × σ :=
  match w.stage with
  | .pull => (.ready w.pullStep.1, w.pullStep.2, s)
  | .write packet =>
    match Connection.write packet s with
    | (.ready (.ok 0), s) => (.ready (.error (.io .writeZero)), w, s)
    | (.ready (.ok (n + 1)), s) => (.ready (.ok .more), w.accept packet (n + 1), s)
    | (.ready (.error e), s) => (.ready (.error (.io e)), w, s)
    | (.again, s) => (.again, w, s)
    | (.stalled, s) => (.stalled, w, s)
  | .flush =>
    match Connection.flush s with
    | (.ok (), s) => (.ready (.ok (.done w.written)), w, s)
    | (.error e, s) => (.ready (.error (.io e)), w, s)

/-- A bound on the steps to come: an octet that is still to be pulled counts more than one that is
to be written. -/
def share (w : RequestWriter) : Nat :=
  match w.stage with
  | .pull => 3 * w.encoding.supply + 2
  | .write packet => 3 * w.encoding.supply + packet.length + 3
  | .flush => 0

def supply (w : RequestWriter) (s : σ) : Nat := Connection.supply s + w.share

theorem share_pullStep {w : RequestWriter} (hw : w.stage = .pull) (h : w.pullStep.1 = .ok .more) :
    w.pullStep.2.share < w.share := by
  unfold pullStep at h ⊢
  split at h
  · simp only [share, hw]
    omega
  · rename_i o os encoding hn
    have := Request.Encoding.supply_next hn
    simp only [share, hw, List.length_cons] at this ⊢
    omega
  · simp at h

theorem share_accept {w : RequestWriter} {packet : Octets} {n : Nat}
    (hw : w.stage = .write packet) : (w.accept packet (n + 1)).share < w.share := by
  by_cases hrest : packet.drop (n + 1) = []
  · simp only [accept, share, hw, if_pos hrest]
    omega
  · have hpos := List.length_pos_iff.2 hrest
    simp only [accept, share, hw, if_neg hrest, List.length_drop] at hpos ⊢
    omega

theorem supply_step_le (w : RequestWriter) (s : σ) :
    Connection.supply (w.step s).2.2 ≤ Connection.supply s := by
  unfold step
  split
  · exact Nat.le_refl _
  · rename_i packet _
    have hle := Connection.supply_write packet s
    split <;> simpa only [*] using hle
  · have hle := Connection.supply_flush s
    split <;> simpa only [*] using hle

instance : Stepwise (RequestWriter × σ) Nat where
  step t := t.1.step t.2
  supply t := t.1.supply t.2
  supply_more {m m'} h := by
    obtain ⟨w, s⟩ := m
    have hle := w.supply_step_le s
    simp only [step] at h hle
    split at h
    · rename_i hw
      simp only [Prod.mk.injEq, Progress.ready.injEq] at h
      obtain ⟨h, rfl⟩ := h
      exact Nat.add_lt_add_left (share_pullStep hw h) _
    · rename_i packet hw
      split at h <;> simp only [Prod.mk.injEq, reduceCtorEq, false_and, Progress.ready.injEq] at h
      rename_i n s' hwrite
      obtain ⟨-, rfl⟩ := h
      exact Nat.add_lt_add_of_le_of_lt (by simpa only [hw, hwrite] using hle) (share_accept hw)
    · split at h <;> simp at h
  supply_again {m m'} h := by
    obtain ⟨w, s⟩ := m
    simp only [step] at h
    split at h
    · simp at h
    · split at h <;> simp only [Prod.mk.injEq, reduceCtorEq, false_and, true_and] at h
      rename_i s' hwrite
      subst h
      exact Nat.add_lt_add_right (Connection.supply_write_again hwrite) _
    · split at h <;> simp at h

end RequestWriter
end HttpWire
