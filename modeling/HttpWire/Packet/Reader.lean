import HttpWire.Packet.Stream

/-! Packets read from a connection, one read for each. -/
namespace HttpWire

/-- The holder of a connection, until it is shut down. -/
structure PacketReader where
  isOpen : Bool
  packetSize : Nat
deriving DecidableEq, Repr

namespace PacketReader
variable {σ : Type} [Connection σ]

def defaultPacketSize : Nat := 4096

/-- A reader that holds a connection. Packets have room for at least one octet. -/
def new (packetSize : Nat) : PacketReader := ⟨true, max 1 packetSize⟩

/-- Read from the connection, again and again while reads are interrupted. -/
def read (n : Nat) (s : σ) : Progress (Except Error Octets) × σ :=
  match h : Connection.read n s with
  | (.ready (.error .interrupted), s') =>
    have := Connection.supply_read_interrupted h
    read n s'
  | (.ready (.error e), s') => (.ready (.error (.io e)), s')
  | (.ready (.ok b), s') => (.ready (.ok b), s')
  | (.again, s') => (.again, s')
  | (.stalled, s') => (.stalled, s')
termination_by Connection.supply s

theorem supply_read_le (n : Nat) (s : σ) :
    Connection.supply (read n s).2 ≤ Connection.supply s := by
  have hle := Connection.supply_read n s
  fun_induction read n s with
  | case1 s u hread hlt ih =>
    exact Nat.le_trans (ih (Connection.supply_read n u)) (Nat.le_of_lt hlt)
  | case2 s e u hne hread => simpa only [hread] using hle
  | case3 s b u hread => simpa only [hread] using hle
  | case4 s u hread => simpa only [hread] using hle
  | case5 s u hread => simpa only [hread] using hle

theorem supply_read_again {n : Nat} {s s' : σ} (h : read n s = (.again, s')) :
    Connection.supply s' < Connection.supply s := by
  fun_induction read n s with
  | case1 s u hread hlt ih => exact Nat.lt_trans (ih h) hlt
  | case2 => simp at h
  | case3 => simp at h
  | case4 s u hread =>
    simp only [Prod.mk.injEq, true_and] at h
    exact h ▸ Connection.supply_read_again hread
  | case5 => simp at h

theorem supply_read_packet {n : Nat} {s s' : σ} {p : Octets} (hp : p ≠ [])
    (h : read n s = (.ready (.ok p), s')) : Connection.supply s' < Connection.supply s := by
  fun_induction read n s with
  | case1 s u hread hlt ih => exact Nat.lt_trans (ih h) hlt
  | case2 => simp at h
  | case3 s b u hread =>
    simp only [Prod.mk.injEq, Progress.ready.injEq, Except.ok.injEq] at h
    obtain ⟨rfl, rfl⟩ := h
    exact Connection.supply_read_octets hp hread
  | case4 => simp at h
  | case5 => simp at h

/-- Ask for the next packet. Without a connection the stream is at its end. -/
def pull (r : PacketReader) (s : σ) : Progress (Except Error Octets) × σ :=
  if r.isOpen then read r.packetSize s else (.ready (.ok []), s)

theorem supply_pull_le (r : PacketReader) (s : σ) :
    Connection.supply (r.pull s).2 ≤ Connection.supply s := by
  unfold pull
  split
  · exact supply_read_le _ _
  · exact Nat.le_refl _

theorem supply_pull_again {r : PacketReader} {s s' : σ} (h : r.pull s = (.again, s')) :
    Connection.supply s' < Connection.supply s := by
  unfold pull at h
  split at h
  · exact supply_read_again h
  · simp at h

theorem supply_pull_packet {r : PacketReader} {s s' : σ} {p : Octets} (hp : p ≠ [])
    (h : r.pull s = (.ready (.ok p), s')) : Connection.supply s' < Connection.supply s := by
  unfold pull at h
  split at h
  · exact supply_read_packet hp h
  · simp only [Prod.mk.injEq, Progress.ready.injEq, Except.ok.injEq] at h
    exact absurd h.1.symm hp

instance : PacketStream (PacketReader × σ) where
  pull t := ((t.1.pull t.2).1, (t.1, (t.1.pull t.2).2))
  supply t := Connection.supply t.2
  supply_again h := by
    simp only [Prod.mk.injEq] at h
    obtain ⟨h, rfl⟩ := h
    exact supply_pull_again (Prod.ext h rfl)
  supply_packet hp h := by
    simp only [Prod.mk.injEq] at h
    obtain ⟨h, rfl⟩ := h
    exact supply_pull_packet hp (Prod.ext h rfl)

def release (r : PacketReader) (s : σ) : σ := if r.isOpen then Connection.release s else s

/-- Shut the connection down and give it up. That the far side has already gone is no failure. -/
def shutdown (r : PacketReader) (s : σ) : Except Error Unit × PacketReader × σ :=
  if r.isOpen then
    let (result, s) := Connection.shutdown s
    let result := match result with
      | .ok () => .ok ()
      | .error .notConnected => .ok ()
      | .error e => .error (.io e)
    (result, { r with isOpen := false }, Connection.release s)
  else (.ok (), r, s)

end PacketReader
end HttpWire
