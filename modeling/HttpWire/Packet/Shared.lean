import HttpWire.Packet.Reader

/-! One reader and any number of callers, who go on when they are polled, in any order. A read is
made under a lock, which is kept until the read has ended. -/
namespace HttpWire
namespace SharedReader

inductive Call
  | pull
  | shutdown
deriving DecidableEq, Repr

/-- What a call has come to. -/
inductive Report
  | pulled (result : Except Error Octets)
  | shutdown (result : Except Error Unit)

/-- How far a caller has come. -/
inductive Stage
  /-- It has not had the lock. -/
  | queued
  /-- It has the lock, and its read has not ended. -/
  | reading
  /-- It has taken the connection and let the lock go. The connection is not shut down yet. -/
  | closing
  | answered (report : Report)

end SharedReader

/-- A reader, its far side, and how far each caller has come. -/
structure SharedReader (σ : Type) where
  reader : PacketReader
  far : σ
  /-- Whose read is outstanding. -/
  holder : Option Nat
  stage : Nat → SharedReader.Stage
  /-- Everyone who has had the lock, in order. -/
  order : List Nat

namespace SharedReader
variable {σ : Type} [Connection σ]

def new (packetSize : Nat) (far : σ) : SharedReader σ :=
  ⟨.new packetSize, far, none, fun _ => .queued, []⟩

/-- The next one to have the lock. -/
def enter (i : Nat) (q : SharedReader σ) : SharedReader σ := { q with order := q.order ++ [i] }

/-- A caller comes to another stage. -/
def become (i : Nat) (x : Stage) (q : SharedReader σ) : SharedReader σ :=
  { q with stage := fun j => if j = i then x else q.stage j }

/-- Go on with the read of the caller that has the lock, and let the lock go once it has ended. -/
def proceed (i : Nat) (q : SharedReader σ) : SharedReader σ :=
  match q.reader.pull q.far with
  | (.ready result, far) => { q with far, holder := none }.become i (.answered (.pulled result))
  | (.again, far) => { q with far, holder := some i }.become i .reading
  | (.stalled, far) => { q with far, holder := some i }.become i .reading

/-- Take the connection, if nobody has taken it yet. -/
def take (i : Nat) (q : SharedReader σ) : SharedReader σ :=
  if q.reader.isOpen then
    { q with reader := { q.reader with isOpen := false } }.become i .closing
  else q.become i (.answered (.shutdown (.ok ())))

/-- Shut down the connection that was taken. The lock is not needed for that. -/
def finish (i : Nat) (q : SharedReader σ) : SharedReader σ :=
  let (result, _, far) := { q.reader with isOpen := true }.shutdown q.far
  { q with far }.become i (.answered (.shutdown result))

/-- Poll a caller. It waits as long as another one has the lock. -/
def poll (calls : Nat → Call) (i : Nat) (q : SharedReader σ) : SharedReader σ :=
  match q.stage i with
  | .queued =>
    if q.holder.isSome then q
    else
      match calls i with
      | .pull => (q.enter i).proceed i
      | .shutdown => (q.enter i).take i
  | .reading => q.proceed i
  | .closing => q.finish i
  | .answered _ => q

/-- One poll after the other. -/
def polls (calls : Nat → Call) : List Nat → SharedReader σ → SharedReader σ
  | [], q => q
  | i :: schedule, q => polls calls schedule (q.poll calls i)

/-- The connection is given back, unless it was taken to be shut down. -/
def connection? (q : SharedReader σ) : Option σ := if q.reader.isOpen then some q.far else none

end SharedReader
end HttpWire
