import HttpWire.Connection

/-! A far side that plays a script: what its reads and writes will come to is laid out in advance,
and what is done to it is put on record. -/
namespace HttpWire
namespace Script

/-- What a read will come to. -/
inductive ReadItem
  | data (b : Octets)
  | failure (e : IoError)
  /-- Not ready for once. -/
  | notReady
deriving DecidableEq, Repr

inductive WriteItem
  /-- At most this many octets are accepted. -/
  | accept (n : Nat)
  | failure (e : IoError)
  /-- Not ready for once. -/
  | notReady
deriving DecidableEq, Repr

/-- An operation that has ended, with its result. -/
inductive Event
  | read (result : Except IoError Octets)
  | write (offered : Octets) (result : Except IoError Nat)
  | flush (result : Except IoError Unit)
  | shutdown (result : Except IoError Unit)
  | release

namespace Event

def isRead : Event → Bool
  | .read _ => true
  | _ => false

def isWrite : Event → Bool
  | .write _ _ => true
  | _ => false

def isFlush : Event → Bool
  | .flush _ => true
  | _ => false

def isShutdown : Event → Bool
  | .shutdown _ => true
  | _ => false

def isRelease : Event → Bool
  | .release => true
  | _ => false

/-- The octets that an operation has put on the wire. -/
def accepted : Event → Octets
  | .write offered (.ok n) => offered.take n
  | _ => []

end Event

/-- How much an item can put a reader off. -/
def ReadItem.supply : ReadItem → Nat
  | .data b => b.length + 1
  | _ => 1

end Script

/-- The items to come, what is left of the last data, and the operations so far, latest first. -/
structure Script where
  reads : List Script.ReadItem
  writes : List Script.WriteItem
  flushError : Option IoError
  shutdownError : Option IoError
  held : Octets
  record : List Script.Event

namespace Script

def new (reads : List ReadItem) (writes : List WriteItem)
    (flushError shutdownError : Option IoError) : Script :=
  ⟨reads, writes, flushError, shutdownError, [], []⟩

/-- The operations so far, in order. -/
def history (s : Script) : List Event := s.record.reverse

def push (s : Script) (b : Octets) : Script := { s with reads := s.reads ++ [.data b] }

def written (s : Script) : Octets := s.history.flatMap Event.accepted

def count (s : Script) (p : Event → Bool) : Nat := s.record.countP p

/-- The items to come, and one for data that is held. -/
def pending (s : Script) : Nat := s.reads.length + if s.held = [] then 0 else 1

/-- Deliver what fits from `b` and hold the rest. -/
def deliver (n : Nat) (b : Octets) (s : Script) : Progress (Except IoError Octets) × Script :=
  (.ready (.ok (b.take n)),
    { s with held := b.drop n, record := .read (.ok (b.take n)) :: s.record })

/-- One read: from held data first, then from the next item. After the last one the input has
ended. -/
def read (n : Nat) (s : Script) : Progress (Except IoError Octets) × Script :=
  if s.held ≠ [] then s.deliver n s.held
  else
    match s.reads with
    | [] => s.deliver n []
    | .data b :: rest => { s with reads := rest }.deliver n b
    | .failure e :: rest =>
      (.ready (.error e), { s with reads := rest, record := .read (.error e) :: s.record })
    | .notReady :: rest => (.again, { s with reads := rest })

/-- A write ends with this result. -/
def answer (b : Octets) (r : Except IoError Nat) (s : Script) :
    Progress (Except IoError Nat) × Script :=
  (.ready r, { s with record := .write b r :: s.record })

/-- One write. After the last item everything is accepted. -/
def write (b : Octets) (s : Script) : Progress (Except IoError Nat) × Script :=
  match s.writes with
  | [] => s.answer b (.ok b.length)
  | .accept n :: rest => { s with writes := rest }.answer b (.ok (min n b.length))
  | .failure e :: rest => { s with writes := rest }.answer b (.error e)
  | .notReady :: rest => (.again, { s with writes := rest })

/-- The result of an operation that fails every time or never. -/
def verdict : Option IoError → Except IoError Unit
  | none => .ok ()
  | some e => .error e

def flush (s : Script) : Except IoError Unit × Script :=
  (verdict s.flushError, { s with record := .flush (verdict s.flushError) :: s.record })

def shutdown (s : Script) : Except IoError Unit × Script :=
  (verdict s.shutdownError, { s with record := .shutdown (verdict s.shutdownError) :: s.record })

def release (s : Script) : Script := { s with record := .release :: s.record }

def supply (s : Script) : Nat :=
  s.held.length + sumOf ReadItem.supply s.reads + s.writes.length

theorem supply_read_le (n : Nat) (s : Script) : (s.read n).2.supply ≤ s.supply := by
  unfold read
  split
  · simp only [deliver, supply, List.length_drop]
    omega
  · split
    all_goals simp_all [deliver, supply, ReadItem.supply]
    omega

theorem supply_write_le (b : Octets) (s : Script) : (s.write b).2.supply ≤ s.supply := by
  unfold write
  split <;> simp_all [answer, supply]

theorem supply_read_octets {n : Nat} {s t : Script} {b : Octets} (hb : b ≠ [])
    (h : s.read n = (.ready (.ok b), t)) : t.supply < s.supply := by
  unfold read at h
  split at h
  · rename_i hh
    simp only [deliver, Prod.mk.injEq, Progress.ready.injEq, Except.ok.injEq] at h
    obtain ⟨rfl, rfl⟩ := h
    have hn : n ≠ 0 := by rintro rfl; simp at hb
    have := List.length_pos_iff.2 hh
    simp only [supply, List.length_drop]
    omega
  · rename_i hh
    split at h
    · simp only [deliver, Prod.mk.injEq, Progress.ready.injEq, Except.ok.injEq] at h
      simp [← h.1] at hb
    · rename_i c rest hr
      simp only [deliver, Prod.mk.injEq, Progress.ready.injEq, Except.ok.injEq] at h
      obtain ⟨rfl, rfl⟩ := h
      simp only [supply, List.length_drop, hr, sumOf_cons, ReadItem.supply]
      omega
    · simp at h
    · simp at h

theorem supply_read_error {n : Nat} {s t : Script} {e : IoError}
    (h : s.read n = (.ready (.error e), t)) : t.supply < s.supply := by
  unfold read at h
  split at h
  · simp [deliver] at h
  · split at h
    · simp [deliver] at h
    · simp [deliver] at h
    · rename_i e' rest hr
      simp only [Prod.mk.injEq] at h
      obtain ⟨-, rfl⟩ := h
      simp only [supply, hr, sumOf_cons, ReadItem.supply]
      omega
    · simp at h

theorem supply_read_again {n : Nat} {s t : Script} (h : s.read n = (.again, t)) :
    t.supply < s.supply := by
  unfold read at h
  split at h
  · simp [deliver] at h
  · split at h
    · simp [deliver] at h
    · simp [deliver] at h
    · simp at h
    · rename_i rest hr
      simp only [Prod.mk.injEq] at h
      obtain ⟨-, rfl⟩ := h
      simp only [supply, hr, sumOf_cons, ReadItem.supply]
      omega

theorem supply_write_again {b : Octets} {s t : Script} (h : s.write b = (.again, t)) :
    t.supply < s.supply := by
  unfold write at h
  split at h
  · simp [answer] at h
  · simp [answer] at h
  · simp [answer] at h
  · rename_i rest hw
    simp only [Prod.mk.injEq] at h
    obtain ⟨-, rfl⟩ := h
    simp only [supply, hw, List.length_cons]
    omega

instance : Connection Script where
  read := read
  write := write
  flush := flush
  shutdown := shutdown
  release := release
  supply := supply
  supply_read := supply_read_le
  supply_write := supply_write_le
  supply_flush s := Nat.le_refl s.supply
  supply_read_again := supply_read_again
  supply_read_interrupted := supply_read_error
  supply_read_octets := supply_read_octets
  supply_write_again := supply_write_again

end Script
end HttpWire
