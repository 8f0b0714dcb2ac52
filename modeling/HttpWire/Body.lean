import HttpWire.Body.InMemory

/-! Bodies of requests. Each can be opened any number of times. -/
namespace HttpWire

/-- A body whose packets and failures are laid out in advance. -/
structure ScriptedBody where
  packets : List (Except IoError Octets)
  length : Option Nat
  mediaType : MediaType
  closeError : Option IoError

/-- The body of a request. -/
inductive Body
  | inMemory (b : InMemory)
  | scripted (b : ScriptedBody)

namespace Body

/-- The length in octets, if it is known beforehand. -/
def length : Body → Option Nat
  | inMemory b => some b.content.length
  | scripted b => b.length

def mediaType : Body → MediaType
  | inMemory b => b.mediaType
  | scripted b => b.mediaType

/-- A pass over a body. -/
inductive Stream
  | inMemory (s : InMemory.Stream)
  | scripted (packets : List (Except IoError Octets)) (closeError : Option IoError)

/-- A new pass from the beginning. -/
def «open» : Body → Stream
  | inMemory b => .inMemory b.open
  | scripted b => .scripted b.packets b.closeError

namespace Stream

/-- The next packet. After the last one of a script there are only empty ones. -/
def next : Stream → Except Error Octets × Stream
  | inMemory s => (.ok s.next.1, inMemory s.next.2)
  | scripted [] closeError => (.ok [], scripted [] closeError)
  | scripted (.ok p :: packets) closeError => (.ok p, scripted packets closeError)
  | scripted (.error e :: packets) closeError => (.error (.io e), scripted packets closeError)

/-- Nothing comes after this, whether closing fails or not. -/
def close : Stream → Except Error Unit × Stream
  | inMemory s => (.ok (), inMemory s.close)
  | scripted _ none => (.ok (), scripted [] none)
  | scripted _ (some e) => (.error (.io e), scripted [] (some e))

def size : Except IoError Octets → Nat
  | .ok p => p.length
  | .error _ => 0

/-- The most octets still to come. -/
def supply : Stream → Nat
  | inMemory s => s.supply
  | scripted packets _ => sumOf size packets

theorem supply_next {s s' : Stream} {p : Octets} (h : s.next = (.ok p, s')) :
    s'.supply + p.length ≤ s.supply := by
  match s with
  | inMemory s =>
    simp only [next, Prod.mk.injEq, Except.ok.injEq] at h
    obtain ⟨rfl, rfl⟩ := h
    exact s.supply_next
  | scripted [] c =>
    simp only [next, Prod.mk.injEq, Except.ok.injEq] at h
    obtain ⟨rfl, rfl⟩ := h
    simp
  | scripted (.ok q :: packets) c =>
    simp only [next, Prod.mk.injEq, Except.ok.injEq] at h
    obtain ⟨rfl, rfl⟩ := h
    simp only [supply, size, sumOf_cons]
    omega
  | scripted (.error e :: packets) c => simp [next] at h

instance : PacketStream Stream where
  pull s := (.ready s.next.1, s.next.2)
  supply := supply
  supply_again h := by simp at h
  supply_packet hp h := by
    simp only [Prod.mk.injEq, Progress.ready.injEq] at h
    have := supply_next (Prod.ext h.1 h.2)
    have := List.length_pos_iff.2 hp
    omega

end Stream
end Body
end HttpWire
