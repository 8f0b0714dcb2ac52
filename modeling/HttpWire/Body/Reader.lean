import HttpWire.Packet.Reader

/-! The body of a response as it is read: the octets that came with the head, then the connection,
up to the declared length or to the end of the input. -/
namespace HttpWire

/-- How far a body has been read. -/
structure BodyReader where
  source : PacketReader
  /-- The declared length. -/
  length : Option Nat
  delivered : Nat
  /-- Octets that came before the first read, not yet handed out. -/
  leftover : Octets
  /-- Octets read past the declared length. -/
  surplus : Octets
  /-- The end was reported, or the body was shut down. -/
  done : Bool
deriving DecidableEq, Repr

namespace BodyReader
variable {σ : Type} [Connection σ]

def new (source : PacketReader) (length : Option Nat) (leftover : Octets) : BodyReader :=
  ⟨source, length, 0, leftover, [], false⟩

def isComplete (b : BodyReader) : Bool :=
  match b.length with
  | none => false
  | some n => n ≤ b.delivered

/-- The end of a body that is complete. What is left over belongs to whatever comes next. -/
def finish (b : BodyReader) : BodyReader :=
  { b with
    done := true
    leftover := []
    surplus := if b.leftover = [] then b.surplus else b.leftover }

/-- How much of a packet is still body. -/
def share (b : BodyReader) (packet : Octets) : Nat :=
  match b.length with
  | none => packet.length
  | some n => min packet.length (n - b.delivered)

/-- Hand out the part of a packet that is body, and keep the rest. -/
def deliver (b : BodyReader) (packet : Octets) : Octets × BodyReader :=
  let n := b.share packet
  (packet.take n, { b with
    delivered := b.delivered + n
    surplus := if packet.drop n = [] then b.surplus else packet.drop n })

/-- The input has ended. A declared length has then been missed. -/
def truncate (b : BodyReader) : Except Error Octets :=
  match b.length with
  | none => .ok []
  | some n => .error (.bodyTruncated n b.delivered)

/-- Ask for the next packet. An error of the connection changes nothing here, so that a later pull
goes on. -/
def pull (b : BodyReader) (s : σ) : Progress (Except Error Octets) × BodyReader × σ :=
  if b.done then (.ready (.ok []), b, s)
  else if b.isComplete then (.ready (.ok []), b.finish, s)
  else if b.leftover ≠ [] then
    let (packet, b) := { b with leftover := [] }.deliver b.leftover
    (.ready (.ok packet), b, s)
  else
    match b.source.pull s with
    | (.ready (.ok []), s) => (.ready b.truncate, { b with done := true }, s)
    | (.ready (.ok (o :: os)), s) =>
      let (packet, b) := b.deliver (o :: os)
      (.ready (.ok packet), b, s)
    | (.ready (.error e), s) => (.ready (.error e), b, s)
    | (.again, s) => (.again, b, s)
    | (.stalled, s) => (.stalled, b, s)

def supply (b : BodyReader) (s : σ) : Nat := b.leftover.length + Connection.supply s

theorem supply_pull_again {b b' : BodyReader} {s s' : σ} (h : b.pull s = (.again, b', s')) :
    b'.supply s' < b.supply s := by
  unfold pull at h
  split at h
  · simp at h
  split at h
  · simp at h
  split at h
  · simp at h
  split at h <;> try simp at h
  rename_i s₁ hp
  obtain ⟨rfl, rfl⟩ := h
  have := PacketReader.supply_pull_again hp
  simp only [supply]
  omega

theorem supply_pull_packet {b b' : BodyReader} {s s' : σ} {p : Octets} (hp : p ≠ [])
    (h : b.pull s = (.ready (.ok p), b', s')) : b'.supply s' < b.supply s := by
  unfold pull at h
  split at h
  · simp only [Prod.mk.injEq, Progress.ready.injEq, Except.ok.injEq] at h
    exact absurd h.1.symm hp
  split at h
  · simp only [Prod.mk.injEq, Progress.ready.injEq, Except.ok.injEq] at h
    exact absurd h.1.symm hp
  split at h
  · rename_i hl
    simp only [deliver, Prod.mk.injEq] at h
    obtain ⟨-, rfl, rfl⟩ := h
    have := List.length_pos_iff.2 hl
    simp only [supply, List.length_nil]
    omega
  split at h
  · rename_i s₁ hs
    simp only [Prod.mk.injEq, Progress.ready.injEq, truncate] at h
    obtain ⟨h, -, -⟩ := h
    split at h
    · simp only [Except.ok.injEq] at h
      exact absurd h.symm hp
    · simp at h
  · rename_i o os s₁ hs
    simp only [deliver, Prod.mk.injEq] at h
    obtain ⟨-, rfl, rfl⟩ := h
    have := PacketReader.supply_pull_packet (by simp) hs
    simp only [supply]
    omega
  · simp at h
  · simp at h
  · simp at h

instance : PacketStream (BodyReader × σ) where
  pull t := t.1.pull t.2
  supply t := t.1.supply t.2
  supply_again h := supply_pull_again h
  supply_packet hp h := supply_pull_packet hp h

def release (b : BodyReader) (s : σ) : σ := b.source.release s

def shutdown (b : BodyReader) (s : σ) : Except Error Unit × BodyReader × σ :=
  let (result, source, s) := b.source.shutdown s
  (result, { b with done := true, leftover := [], source := source }, s)

/-- The octets already read past the end of the body, if the connection can go on to something
else: the declared length was handed out, and the connection is still held. -/
def recover? (b : BodyReader) : Option Octets :=
  if b.length = some b.delivered && b.source.isOpen then
    some (if b.leftover = [] then b.surplus else b.leftover)
  else none

def describe (b : BodyReader) : String :=
  Text.record "IncomingBody" [("content_length", Text.optional (b.length.map toString))]

end BodyReader
end HttpWire
