import HttpWire.Body
import HttpWire.Proofs.Packet.Collect

/-! A pass over a body held in memory, whole or cut into packets, gives its content and then the
end. -/
namespace HttpWire
open PacketStream

theorem Body.Stream.pull_eq (s : Body.Stream) :
    PacketStream.next s = (some s.next.1, s.next.2) := by
  rw [PacketStream.next]
  rfl

namespace InMemory

namespace Stream

/-- What is still to be handed out. -/
def remaining : Stream → Octets
  | whole content taken => if taken then [] else content
  | sliced _ _ rest => rest

/-- The packets that are still to come. -/
def packets (s : Stream) : List Octets :=
  if s.next.1 = [] then [] else s.next.1 :: packets s.next.2
termination_by s.supply
decreasing_by
  have hle := s.supply_next
  have hpos := List.length_pos_iff.2 ‹s.next.1 ≠ []›
  omega

theorem next_append_remaining (s : Stream) : s.next.1 ++ s.next.2.remaining = s.remaining := by
  cases s with
  | whole content taken => cases taken <;> simp [next, remaining]
  | sliced packetSize index rest => exact List.take_append_drop packetSize rest

theorem remaining_close (s : Stream) : s.close.remaining = [] := by
  cases s <;> rfl

theorem packets_of_end {s : Stream} (h : s.next.1 = []) : s.packets = [] := by
  rw [packets, if_pos h]

theorem packets_of_packet {s : Stream} (h : s.next.1 ≠ []) :
    s.packets = s.next.1 :: s.next.2.packets := by
  rw [packets, if_neg h]

theorem packets_of_remaining {s : Stream} (h : s.remaining = []) : s.packets = [] := by
  have hnext := s.next_append_remaining
  rw [h] at hnext
  exact packets_of_end (List.append_eq_nil_iff.1 hnext).1

theorem ne_nil_of_mem_packets (s : Stream) : ∀ p ∈ s.packets, p ≠ [] := by
  fun_induction packets s with
  | case1 s h => exact List.forall_mem_nil _
  | case2 s h ih => exact List.forall_mem_cons.2 ⟨h, ih⟩

/-- A pass over `b`. What is before the index was handed out. -/
inductive Over (b : InMemory) : Stream → Prop
  | whole (taken : Bool) (hlt : b.content.length < b.packetSize) : Over b (.whole b.content taken)
  | sliced {index : Nat} (hsize : b.packetSize ≤ b.content.length)
    (hindex : index ≤ b.content.length) :
    Over b (.sliced b.packetSize index (b.content.drop index))

variable {b : InMemory} {s : Stream}

theorem over_open (b : InMemory) : Over b b.open := by
  unfold «open»
  split
  · exact .whole false ‹_›
  · exact .sliced (Nat.le_of_not_lt ‹_›) (Nat.zero_le _)

theorem Over.next (h : Over b s) : Over b s.next.2 := by
  cases h with
  | whole taken hlt => exact .whole true hlt
  | @sliced index hsize hindex =>
    have hlength := List.length_take (i := b.packetSize) (l := b.content.drop index)
    rw [List.length_drop] at hlength
    have hdrop : (b.content.drop index).drop b.packetSize =
        b.content.drop (index + ((b.content.drop index).take b.packetSize).length) := by
      rw [List.drop_drop, List.drop_eq_drop_iff]
      omega
    rw [Stream.next, hdrop]
    exact .sliced hsize (by omega)

theorem Over.close (h : Over b s) : Over b s.close := by
  cases h with
  | whole taken hlt => exact .whole true hlt
  | @sliced index hsize hindex =>
    have hend : index + (b.content.drop index).length = b.content.length := by
      rw [List.length_drop]
      omega
    rw [Stream.close, hend, ← List.drop_length (l := b.content)]
    exact .sliced hsize (Nat.le_refl _)

/-- There is an empty packet only at the end. -/
theorem Over.remaining_eq_nil (h : Over b s) (hn : s.next.1 = []) : s.remaining = [] := by
  cases h with
  | whole taken hlt => exact hn
  | sliced hsize hindex =>
    obtain hzero | hnil := List.take_eq_nil_iff.1 hn
    · exact absurd hzero (Nat.ne_of_gt b.packetSize_pos)
    · exact hnil

/-- Past its end a pass is as if it were closed. -/
theorem Over.next_of_end (h : Over b s) (hn : s.next.1 = []) : s.next.2 = s.close := by
  have hnil := h.remaining_eq_nil hn
  cases h with
  | whole taken hlt => rfl
  | @sliced index hsize hindex =>
    have hrest : b.content.drop index = [] := hnil
    simp [Stream.next, Stream.close, hrest]

theorem close_next (s : Stream) : s.next.2.close = s.close := by
  cases s with
  | whole content taken => rfl
  | sliced packetSize index rest =>
    simp only [Stream.next, Stream.close, List.length_take, List.length_drop]
    congr 1
    omega

theorem Over.flatten_packets (h : Over b s) : s.packets.flatten = s.remaining := by
  fun_induction packets s with
  | case1 s hn => exact (h.remaining_eq_nil hn).symm
  | case2 s hn ih => rw [List.flatten_cons, ih h.next, next_append_remaining]

theorem Over.packets_next (h : Over b s) : s.next.2.packets = s.packets.tail := by
  by_cases hn : s.next.1 = []
  · have hclosed : s.next.2.packets = [] := by
      rw [h.next_of_end hn]
      exact packets_of_remaining s.remaining_close
    rw [packets_of_end hn, hclosed, List.tail_nil]
  · rw [packets_of_packet hn, List.tail_cons]

theorem Over.answers_eq (h : Over b s) : answers (Body.Stream.inMemory s) =
    (s.packets.map packet ++ [packet []], Body.Stream.inMemory s.close) := by
  have hpull := (Body.Stream.inMemory s).pull_eq
  fun_induction packets s with
  | case1 s hn =>
    rw [answers_of_end hpull hn, Body.Stream.next, hn, h.next_of_end hn]
    rfl
  | case2 s hn ih =>
    have hrest := ih h.next (Body.Stream.inMemory s.next.2).pull_eq
    rw [answers_of_packet hpull hn, Body.Stream.next, hrest, close_next]
    rfl

theorem Over.collect_eq (h : Over b s) : collect (Body.Stream.inMemory s) =
    (packet s.packets.flatten, Body.Stream.inMemory s.close) := by
  rw [collect_eq_joined, h.answers_eq, joined_packets]
  exact congrArg (fun content => (packet content, _)) (List.append_nil _)

end Stream

theorem remaining_open (b : InMemory) : b.open.remaining = b.content := by
  unfold «open»
  split <;> rfl

/-- A new pass gives the content. -/
theorem exists_answers_open_eq (b : InMemory) : ∃ packets : List Octets,
    (answers (Body.inMemory b).open).1 =
        packets.map (fun p => some (.ok p)) ++ [some (.ok [])] ∧
      packets.flatten = b.content := by
  have hover := Stream.over_open b
  refine ⟨b.open.packets, congrArg Prod.fst hover.answers_eq, ?_⟩
  rw [hover.flatten_packets, remaining_open]

end InMemory
end HttpWire
