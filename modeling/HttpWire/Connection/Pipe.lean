import HttpWire.Connection

/-! An in-memory far side: chunks queued for reading, and the octets written to it. -/
namespace HttpWire

/-- A queue of chunks, none of them empty. Each read takes from one chunk only. -/
structure Pipe where
  queue : List Octets
  /-- Nothing more will be queued. -/
  ended : Bool
  /-- A connection was shut down. -/
  closed : Bool
  /-- The most octets that one write accepts, if there is a limit. -/
  maxWrite : Option Nat
  /-- What each write accepted, the latest first. -/
  accepted : List Octets
  /-- How many reads have ended. -/
  reads : Nat
  chunk_ne_nil : ∀ c ∈ queue, c ≠ []

namespace Pipe

/-- A pipe with nothing in it. A limit on writes is at least one octet. -/
def new (maxWrite : Option Nat) : Pipe :=
  ⟨[], false, false, maxWrite.map (max 1), [], 0, by simp⟩

instance : Inhabited Pipe := ⟨new none⟩

def written (p : Pipe) : Octets := p.accepted.reverse.flatten

/-- Queue a chunk. An empty one is not queued. -/
def push (p : Pipe) (chunk : Octets) : Pipe :=
  if h : chunk = [] then p else
    { p with
      queue := p.queue ++ [chunk]
      chunk_ne_nil := fun c hc => by
        rcases List.mem_append.1 hc with hc | hc
        · exact p.chunk_ne_nil c hc
        · exact List.mem_singleton.1 hc ▸ h }

/-- Once the queue is empty, the input ends. -/
def finish (p : Pipe) : Pipe := { p with ended := true }

def isDry (p : Pipe) : Bool := p.queue.isEmpty && !p.ended && !p.closed

/-- The queue when the first `n` octets of its first chunk are gone. -/
def dropFirst (n : Nat) (chunk : Octets) (rest : List Octets) : List Octets :=
  if chunk.drop n = [] then rest else chunk.drop n :: rest

/-- One read. With nothing queued it waits, unless the input has ended. -/
def read (n : Nat) (p : Pipe) : Progress (Except IoError Octets) × Pipe :=
  match h : p.queue with
  | [] =>
    if p.ended || p.closed then (.ready (.ok []), { p with reads := p.reads + 1 })
    else (.stalled, p)
  | chunk :: rest =>
    (.ready (.ok (chunk.take n)), { p with
      queue := dropFirst n chunk rest
      reads := p.reads + 1
      chunk_ne_nil := fun c hc => by
        have hall := h ▸ p.chunk_ne_nil
        unfold dropFirst at hc
        split at hc
        · exact hall c (List.mem_cons_of_mem _ hc)
        · rename_i hne
          rcases List.mem_cons.1 hc with rfl | hc
          · exact hne
          · exact hall c (List.mem_cons_of_mem _ hc) })

/-- How many of `n` octets one write accepts. -/
def acceptance (p : Pipe) (n : Nat) : Nat :=
  match p.maxWrite with
  | none => n
  | some limit => min n limit

/-- One write. It fails once a connection was shut down. -/
def write (b : Octets) (p : Pipe) : Except IoError Nat × Pipe :=
  if p.closed then (.error .brokenPipe, p)
  else
    let n := p.acceptance b.length
    (.ok n, { p with accepted := b.take n :: p.accepted })

def supply (p : Pipe) : Nat := sumOf List.length p.queue

theorem supply_dropFirst_le (n : Nat) (chunk : Octets) (rest : List Octets) :
    sumOf List.length (dropFirst n chunk rest) ≤ sumOf List.length (chunk :: rest) := by
  unfold dropFirst
  split
  · simp only [sumOf_cons]
    omega
  · simp only [sumOf_cons, List.length_drop]
    omega

theorem supply_read_le (n : Nat) (p : Pipe) : (p.read n).2.supply ≤ p.supply := by
  unfold read
  split
  · split <;> simp [supply]
  · rename_i chunk rest hq
    simpa only [supply, hq] using supply_dropFirst_le n chunk rest

theorem supply_read_octets {n : Nat} {p q : Pipe} {b : Octets} (hb : b ≠ [])
    (h : p.read n = (.ready (.ok b), q)) : q.supply < p.supply := by
  unfold read at h
  split at h
  · split at h <;> simp_all
  · rename_i chunk rest hq
    simp only [Prod.mk.injEq, Progress.ready.injEq, Except.ok.injEq] at h
    obtain ⟨rfl, rfl⟩ := h
    have hne : chunk ≠ [] := by rintro rfl; simp at hb
    have hpos := List.length_pos_iff.2 hne
    have hn : n ≠ 0 := by rintro rfl; simp at hb
    simp only [supply, dropFirst, hq, sumOf_cons]
    split
    · omega
    · simp only [sumOf_cons, List.length_drop]
      omega

theorem read_ne_again {n : Nat} {p q : Pipe} : p.read n ≠ (.again, q) := by
  unfold read
  split
  · split <;> simp
  · simp

theorem read_ne_error {n : Nat} {p q : Pipe} {e : IoError} :
    p.read n ≠ (.ready (.error e), q) := by
  unfold read
  split
  · split <;> simp
  · simp

instance : Connection Pipe where
  read := read
  write b p := ((.ready (p.write b).1), (p.write b).2)
  flush p := (.ok (), p)
  shutdown p := (.ok (), { p with closed := true })
  release p := p
  supply := supply
  supply_read := supply_read_le
  supply_write b p := by
    unfold write
    split <;> exact Nat.le_refl _
  supply_flush p := Nat.le_refl _
  supply_read_again h := absurd h read_ne_again
  supply_read_interrupted h := absurd h read_ne_error
  supply_read_octets := supply_read_octets
  supply_write_again h := by simp at h

end Pipe
end HttpWire
