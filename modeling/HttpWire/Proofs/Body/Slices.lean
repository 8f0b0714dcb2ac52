import HttpWire.Proofs.Body.InMemory

/-! How a body held in memory is cut into packets, and what any calls on a pass over it come to. -/
namespace HttpWire
open PacketStream

namespace InMemory.Stream
variable {b : InMemory} {s : Stream}

/-- A packet with more to come after it is full. -/
theorem Over.length_next (h : Over b s) : s.next.1.length ≤ b.packetSize ∧
    (s.next.2.remaining ≠ [] → s.next.1.length = b.packetSize) := by
  cases h with
  | whole taken hlt =>
    refine ⟨?_, fun hmore => absurd rfl hmore⟩
    cases taken
    · exact Nat.le_of_lt hlt
    · exact Nat.zero_le _
  | @sliced index hsize hindex =>
    refine ⟨List.length_take_le _ _, fun hmore => ?_⟩
    have hlt := Nat.lt_of_not_le (mt List.drop_eq_nil_iff.2 hmore)
    exact List.length_take_of_le (Nat.le_of_lt hlt)

theorem Over.length_le_of_mem_packets (h : Over b s) :
    ∀ p ∈ s.packets, p.length ≤ b.packetSize := by
  fun_induction packets s with
  | case1 s hn => exact List.forall_mem_nil _
  | case2 s hn ih => exact List.forall_mem_cons.2 ⟨h.length_next.1, ih h.next⟩

theorem Over.length_of_mem_dropLast (h : Over b s) :
    ∀ p ∈ s.packets.dropLast, p.length = b.packetSize := by
  fun_induction packets s with
  | case1 s hn => exact List.forall_mem_nil _
  | case2 s hn ih =>
    by_cases hlast : s.next.2.packets = []
    · rw [hlast]
      exact List.forall_mem_nil _
    · have hfull := h.length_next.2 (mt packets_of_remaining hlast)
      rw [List.dropLast_cons_of_ne_nil hlast]
      exact List.forall_mem_cons.2 ⟨hfull, ih h.next⟩

/-- The next packet, cut out of the whole content by its bounds. There is none if a bound lies
beyond `limit`, or if the bounds do not lie within the content. -/
def pullAt? (limit : Nat) (content : Octets) : Stream → Option (Octets × Stream)
  | whole c taken => some (next (whole c taken))
  | sliced packetSize index _ =>
    if limit < index + packetSize then none
    else
      let stop := min content.length (index + packetSize)
      if index ≤ stop ∧ stop ≤ content.length then
        some (content.extract index stop, sliced packetSize stop (content.drop stop))
      else none

/-- Content takes up at most half of what a bound can count, so no bound lies beyond. -/
theorem Over.pullAt?_eq (h : Over b s) {limit : Nat} (hlimit : b.content.length ≤ limit / 2) :
    s.pullAt? limit b.content = some s.next := by
  cases h with
  | whole taken hlt => rfl
  | @sliced index hsize hindex =>
    have hlength : ((b.content.drop index).take b.packetSize).length =
        min b.packetSize (b.content.length - index) := by
      rw [List.length_take, List.length_drop]
    have hstop : index + ((b.content.drop index).take b.packetSize).length =
        min b.content.length (index + b.packetSize) := by omega
    have hpacket : b.content.extract index (min b.content.length (index + b.packetSize)) =
        (b.content.drop index).take b.packetSize := by
      rw [List.extract_eq_take_drop, List.take_eq_take_iff, List.length_drop]
      omega
    have hrest : b.content.drop (min b.content.length (index + b.packetSize)) =
        (b.content.drop index).drop b.packetSize := by
      rw [List.drop_drop, List.drop_eq_drop_iff]
      omega
    rw [pullAt?, if_neg (by omega)]
    dsimp only
    rw [if_pos (by omega), hpacket, hrest, Stream.next, hstop]

end InMemory.Stream

namespace Body.Stream

inductive Call
  | next
  | collect
  | close

inductive Reply
  | packet (result : Except Error Octets)
  | collected (result : Option (Except Error Octets))
  | closed (result : Except Error Unit)

def perform : Call → Body.Stream → Reply × Body.Stream
  | .next, s => (.packet s.next.1, s.next.2)
  | .collect, s => (.collected (collect s).1, (collect s).2)
  | .close, s => (.closed s.close.1, s.close.2)

/-- One call after the other, each with its reply. -/
def run : List Call → Body.Stream → List Reply × Body.Stream
  | [], s => ([], s)
  | call :: calls, s =>
    let (reply, s) := perform call s
    let (replies, s) := run calls s
    (reply :: replies, s)

namespace Reply

/-- Anything but a packet with octets. -/
def IsEnd (reply : Reply) : Prop := ∀ p, reply = .packet (.ok p) → p = []

/-- There are no octets in it, and no error. -/
def IsSilent (reply : Reply) : Prop :=
  reply = .packet (.ok []) ∨ reply = .collected (some (.ok [])) ∨ reply = .closed (.ok ())

end Reply

namespace Call

/-- What a call comes to while these packets are left. -/
def reply (packets : List Octets) : Call → Reply
  | next => .packet (.ok (packets.headD []))
  | collect => .collected (some (.ok packets.flatten))
  | close => .closed (.ok ())

/-- The packets that a call leaves. -/
def left (packets : List Octets) : Call → List Octets
  | next => packets.tail
  | collect => []
  | close => []

@[simp] theorem left_nil (call : Call) : call.left [] = [] := by
  cases call <;> rfl

theorem reply_nil_silent (call : Call) : (call.reply []).IsSilent := by
  cases call with
  | next => exact .inl rfl
  | collect => exact .inr (.inl rfl)
  | close => exact .inr (.inr rfl)

theorem left_subset (packets : List Octets) (call : Call) : call.left packets ⊆ packets := by
  cases call with
  | next => exact List.tail_subset packets
  | collect => exact List.nil_subset packets
  | close => exact List.nil_subset packets

theorem left_of_isEnd {packets : List Octets} (hne : ∀ p ∈ packets, p ≠ []) {call : Call}
    (h : (call.reply packets).IsEnd) : call.left packets = [] := by
  cases call with
  | next =>
    cases packets with
    | nil => rfl
    | cons p packets => exact absurd (h p rfl) (hne p List.mem_cons_self)
  | collect => rfl
  | close => rfl

end Call

/-- What calls come to on a stream of these packets, one reply for each. -/
def told : List Octets → List Call → List Reply
  | _, [] => []
  | packets, call :: calls => call.reply packets :: told (call.left packets) calls

theorem told_nil_silent (calls : List Call) : ∀ reply ∈ told [] calls, reply.IsSilent := by
  induction calls with
  | nil => exact List.forall_mem_nil _
  | cons call calls ih =>
    rw [told, Call.left_nil]
    exact List.forall_mem_cons.2 ⟨call.reply_nil_silent, ih⟩

/-- After an end there is silence. -/
theorem silent_of_told {packets : List Octets} (hne : ∀ p ∈ packets, p ≠ []) {calls : List Call}
    {earlier later : List Reply} {reply : Reply} (h : told packets calls = earlier ++ reply :: later)
    (hend : reply.IsEnd) : ∀ r ∈ later, r.IsSilent := by
  induction calls generalizing packets earlier with
  | nil => simp [told] at h
  | cons call calls ih =>
    rw [told] at h
    cases earlier with
    | nil =>
      obtain ⟨rfl, rfl⟩ := List.cons.inj h
      rw [Call.left_of_isEnd hne hend]
      exact told_nil_silent calls
    | cons r earlier =>
      refine ih (fun p hp => hne p (Call.left_subset packets call hp)) (List.cons.inj h).2

end Body.Stream

namespace InMemory.Stream
open Body.Stream (Call perform run told)
variable {b : InMemory} {s : Stream}

theorem next_eq_headD (s : Stream) : s.next.1 = s.packets.headD [] := by
  by_cases hn : s.next.1 = []
  · rw [packets_of_end hn, hn, List.headD_nil]
  · rw [packets_of_packet hn, List.headD_cons]

/-- One call on a pass. -/
theorem Over.perform (h : Over b s) (call : Call) : ∃ s', Over b s' ∧
    s'.packets = call.left s.packets ∧
    perform call (.inMemory s) = (call.reply s.packets, .inMemory s') := by
  have hclosed : s.close.packets = [] := packets_of_remaining s.remaining_close
  cases call with
  | next =>
    refine ⟨s.next.2, h.next, h.packets_next, ?_⟩
    rw [Call.reply, ← s.next_eq_headD]
    rfl
  | collect =>
    refine ⟨s.close, h.close, hclosed, ?_⟩
    rw [Body.Stream.perform, h.collect_eq]
    rfl
  | close => exact ⟨s.close, h.close, hclosed, rfl⟩

/-- Calls on a pass. -/
theorem Over.run (h : Over b s) (calls : List Call) : ∃ s', Over b s' ∧
    run calls (.inMemory s) = (told s.packets calls, .inMemory s') := by
  induction calls generalizing s with
  | nil => exact ⟨s, h, rfl⟩
  | cons call calls ih =>
    obtain ⟨t, ht, hpackets, hperform⟩ := h.perform call
    obtain ⟨s', hs', hrun⟩ := ih ht
    refine ⟨s', hs', ?_⟩
    rw [Body.Stream.run, hperform]
    dsimp only
    rw [hrun, told, hpackets]

/-- The pulls give the packets by their numbers, and after them nothing. -/
theorem Over.pulls_eq (h : Over b s) (k : Nat) : (pulls k (Body.Stream.inMemory s)).1 =
    (List.range k).map fun i => packet (s.packets.getD i []) := by
  induction k generalizing s with
  | zero => rfl
  | succ k ih =>
    have hpull := (Body.Stream.inMemory s).pull_eq
    rw [pulls_succ hpull, Body.Stream.next, ih h.next, h.packets_next, s.next_eq_headD,
      List.range_succ_eq_map, List.map_cons, List.map_map]
    cases s.packets <;> rfl

end InMemory.Stream
end HttpWire
