import HttpWire.Body

/-! Several passes over one body held in memory, side by side. -/
namespace HttpWire

/-- A body and the passes opened over it, in order. -/
structure Passes where
  body : InMemory
  streams : List Body.Stream

namespace Passes

def new (body : InMemory) : Passes := ⟨body, []⟩

/-- Open one more pass, and give its number. -/
def «open» (p : Passes) : Nat × Passes :=
  (p.streams.length, { p with streams := p.streams ++ [(Body.inMemory p.body).open] })

/-- Do something with the pass of number `i`, if it was opened. -/
def at? {α : Type} (i : Nat) (f : Body.Stream → α × Body.Stream) (p : Passes) :
    Option (α × Passes) :=
  p.streams[i]?.map fun s => ((f s).1, { p with streams := p.streams.set i (f s).2 })

def next? (i : Nat) : Passes → Option (Except Error Octets × Passes) := at? i Body.Stream.next

def collect? (i : Nat) : Passes → Option (Option (Except Error Octets) × Passes) :=
  at? i PacketStream.collect

def close? (i : Nat) : Passes → Option (Except Error Unit × Passes) := at? i Body.Stream.close

end Passes
end HttpWire
