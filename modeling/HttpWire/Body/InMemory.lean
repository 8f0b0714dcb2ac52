import HttpWire.MediaType
import HttpWire.Octets
import HttpWire.Packet.Reader

/-! Bodies held in memory, and the packets they are cut into. -/
namespace HttpWire

/-- A content, its media type, and the size of its packets. -/
structure InMemory where
  content : Octets
  mediaType : MediaType
  packetSize : Nat
  packetSize_pos : 0 < packetSize
deriving DecidableEq

namespace InMemory

def new (content : Octets) (mediaType : MediaType) : InMemory :=
  ⟨content, mediaType, PacketReader.defaultPacketSize, by decide⟩

def text (content : String) (mime : String) : InMemory :=
  new (Octets.ofText content) ⟨mime, some "UTF-8"⟩

def ofOctets (content : Octets) : InMemory := new content .octetStream

def ofText (content : String) : InMemory := new (Octets.ofText content) .plainText

/-- The same body in packets of another size, of at least one octet. -/
def withPacketSize (b : InMemory) (n : Nat) : InMemory :=
  { b with packetSize := max 1 n, packetSize_pos := by omega }

inductive Stream
  /-- The whole content is one packet. -/
  | whole (content : Octets) (taken : Bool)
  /-- The content is cut into packets. What is before the index was handed out, and the rest is
  left. -/
  | sliced (packetSize index : Nat) (rest : Octets)
deriving DecidableEq, Repr

/-- A new pass from the beginning. Content shorter than a packet is not cut. -/
def «open» (b : InMemory) : Stream :=
  if b.content.length < b.packetSize then .whole b.content false
  else .sliced b.packetSize 0 b.content

namespace Stream

def next : Stream → Octets × Stream
  | whole content taken => (if taken then [] else content, whole content true)
  | sliced packetSize index rest =>
    let packet := rest.take packetSize
    (packet, sliced packetSize (index + packet.length) (rest.drop packetSize))

/-- Nothing comes after this. -/
def close : Stream → Stream
  | whole content _ => whole content true
  | sliced packetSize index rest => sliced packetSize (index + rest.length) []

def supply : Stream → Nat
  | whole content taken => if taken then 0 else content.length
  | sliced _ _ rest => rest.length

theorem supply_next (s : Stream) : s.next.2.supply + s.next.1.length ≤ s.supply := by
  cases s with
  | whole content taken => cases taken <;> simp [next, supply]
  | sliced packetSize index rest =>
    simp only [next, supply, List.length_take, List.length_drop]
    omega

end Stream
end InMemory
end HttpWire
