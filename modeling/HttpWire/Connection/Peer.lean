import HttpWire.Connection.Pipe
import HttpWire.Connection.Script

/-! The far sides to choose from. -/
namespace HttpWire

/-- A pipe or a script. -/
inductive Peer
  | pipe (p : Pipe)
  | script (s : Script)

namespace Peer

def push (b : Octets) : Peer → Peer
  | pipe p => pipe (p.push b)
  | script s => script (s.push b)

/-- End the input of a pipe. A script ends by itself. -/
def finish : Peer → Peer
  | pipe p => pipe p.finish
  | script s => script s

/-- Whether a read has to wait. A script never lets one wait for long. -/
def isDry : Peer → Bool
  | pipe p => p.isDry
  | script _ => false

def written : Peer → Octets
  | pipe p => p.written
  | script s => s.written

/-- Carry an operation out on whichever far side there is. -/
def on {α : Type} (f : Pipe → α × Pipe) (g : Script → α × Script) : Peer → α × Peer
  | pipe p => ((f p).1, pipe (f p).2)
  | script s => ((g s).1, script (g s).2)

def supply : Peer → Nat
  | pipe p => Connection.supply p
  | script s => Connection.supply s

theorem on_eq {α : Type} {f : Pipe → α × Pipe} {g : Script → α × Script} {x y : Peer} {r : α}
    (h : x.on f g = (r, y)) :
    (∃ p q, x = pipe p ∧ y = pipe q ∧ f p = (r, q)) ∨
      ∃ s t, x = script s ∧ y = script t ∧ g s = (r, t) := by
  cases x with
  | pipe p =>
    simp only [on, Prod.mk.injEq] at h
    exact .inl ⟨p, _, rfl, h.2.symm, Prod.ext h.1 rfl⟩
  | script s =>
    simp only [on, Prod.mk.injEq] at h
    exact .inr ⟨s, _, rfl, h.2.symm, Prod.ext h.1 rfl⟩

instance : Connection Peer where
  read n := on (Connection.read n) (Connection.read n)
  write b := on (Connection.write b) (Connection.write b)
  flush := on Connection.flush Connection.flush
  shutdown := on Connection.shutdown Connection.shutdown
  release x := (x.on (fun p => ((), Connection.release p)) fun s => ((), Connection.release s)).2
  supply := supply
  supply_read n x := by
    cases x with
    | pipe p => exact Connection.supply_read n p
    | script s => exact Connection.supply_read n s
  supply_write b x := by
    cases x with
    | pipe p => exact Connection.supply_write b p
    | script s => exact Connection.supply_write b s
  supply_flush x := by
    cases x with
    | pipe p => exact Connection.supply_flush p
    | script s => exact Connection.supply_flush s
  supply_read_again h := by
    rcases on_eq h with ⟨p, q, rfl, rfl, hp⟩ | ⟨s, t, rfl, rfl, hs⟩
    · exact Connection.supply_read_again hp
    · exact Connection.supply_read_again hs
  supply_read_interrupted h := by
    rcases on_eq h with ⟨p, q, rfl, rfl, hp⟩ | ⟨s, t, rfl, rfl, hs⟩
    · exact Connection.supply_read_interrupted hp
    · exact Connection.supply_read_interrupted hs
  supply_read_octets hb h := by
    rcases on_eq h with ⟨p, q, rfl, rfl, hp⟩ | ⟨s, t, rfl, rfl, hs⟩
    · exact Connection.supply_read_octets hb hp
    · exact Connection.supply_read_octets hb hs
  supply_write_again h := by
    rcases on_eq h with ⟨p, q, rfl, rfl, hp⟩ | ⟨s, t, rfl, rfl, hs⟩
    · exact Connection.supply_write_again hp
    · exact Connection.supply_write_again hs

end Peer
end HttpWire
