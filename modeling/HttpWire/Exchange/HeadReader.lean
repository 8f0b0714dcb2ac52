import HttpWire.Packet.Reader
import HttpWire.Response.Head
import HttpWire.Stepwise

/-! Reading from a connection until the response head is there. -/
namespace HttpWire

structure HeadReader where
  source : PacketReader
  decoder : Head.Decoder
  buffer : Buffer
  /-- A read was begun and has not ended. -/
  waiting : Bool

namespace HeadReader
variable {σ : Type} [Connection σ]

def new (source : PacketReader) (maxLine : Nat) : HeadReader :=
  ⟨source, .new maxLine, .empty, false⟩

/-- Decode what was buffered and one more packet. The result is the head, and the octets that came
after it. -/
def digest (r : HeadReader) (packet : Octets) : Except Error (Step (Head × Octets)) × HeadReader :=
  let o := r.decoder.feed r.buffer packet
  match o.result with
  | .error e => (.error (.head e), { r with decoder := o.decoder, buffer := o.buffer })
  | .ok none => (.ok .more, { r with decoder := o.decoder, buffer := o.buffer })
  | .ok (some head) =>
    (.ok (.done (head, o.buffer.toOctets)), { r with decoder := o.decoder, buffer := .empty })

def step (r : HeadReader) (s : σ) :
    Progress (Except Error (Step (Head × Octets))) × HeadReader × σ :=
  match r.source.pull s with
  | (.ready (.ok []), s) => (.ready (.error .prematureEof), { r with waiting := false }, s)
  | (.ready (.ok (o :: os)), s) =>
    let (result, r) := { r with waiting := false }.digest (o :: os)
    (.ready result, r, s)
  | (.ready (.error e), s) => (.ready (.error e), { r with waiting := false }, s)
  | (.again, s) => (.again, { r with waiting := true }, s)
  | (.stalled, s) => (.stalled, { r with waiting := true }, s)

theorem supply_step_le (r : HeadReader) (s : σ) :
    Connection.supply (r.step s).2.2 ≤ Connection.supply s := by
  have hle := r.source.supply_pull_le s
  unfold step
  split <;> simpa only [*] using hle

instance : Stepwise (HeadReader × σ) (Head × Octets) where
  step t := t.1.step t.2
  supply t := Connection.supply t.2
  supply_more {m m'} h := by
    obtain ⟨r, s⟩ := m
    simp only [step] at h
    split at h <;> simp only [Prod.mk.injEq, Progress.ready.injEq, reduceCtorEq, false_and] at h
    rename_i o os s' hp
    obtain ⟨-, rfl⟩ := h
    exact PacketReader.supply_pull_packet (List.cons_ne_nil o os) hp
  supply_again {m m'} h := by
    obtain ⟨r, s⟩ := m
    simp only [step] at h
    split at h <;> simp only [Prod.mk.injEq, reduceCtorEq, false_and, true_and] at h
    rename_i s' hp
    subst h
    exact PacketReader.supply_pull_again hp

end HeadReader
end HttpWire
