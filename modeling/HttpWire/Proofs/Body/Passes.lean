import HttpWire.Body.Passes
import HttpWire.Proofs.Body.Slices

/-! Passes over one body, side by side. Each replies as if it were the only one. -/
namespace HttpWire
open Body.Stream (Reply told)

namespace Passes

/-- One more pass is opened, or something is asked of a pass. -/
inductive Call
  | «open»
  | on (i : Nat) (call : Body.Stream.Call)

def Call.isOpen : Call → Bool
  | .open => true
  | .on _ _ => false

/-- What is asked of the pass of number `i`. -/
def Call.asked? (i : Nat) : Call → Option Body.Stream.Call
  | .open => none
  | .on j call => if j = i then some call else none

def opens (calls : List Call) : Nat := calls.countP Call.isOpen

def callsOn (i : Nat) (calls : List Call) : List Body.Stream.Call :=
  calls.filterMap (Call.asked? i)

/-- The reply of the pass of number `i`, if it was opened. -/
def reply? (i : Nat) (call : Body.Stream.Call) (p : Passes) : Option (Reply × Passes) :=
  match call with
  | .next => (p.next? i).map (Prod.map .packet id)
  | .collect => (p.collect? i).map (Prod.map .collected id)
  | .close => (p.close? i).map (Prod.map .closed id)

/-- The replies to these calls, each with the number of its pass. -/
def replies : List Call → Passes → List (Nat × Reply)
  | [], _ => []
  | .open :: calls, p => replies calls p.open.2
  | .on i call :: calls, p =>
    match p.reply? i call with
    | none => replies calls p
    | some (reply, p) => (i, reply) :: replies calls p

def repliesOf (i : Nat) (replies : List (Nat × Reply)) : List Reply :=
  replies.filterMap fun r => if r.1 = i then some r.2 else none

variable {p : Passes} {i j : Nat}

theorem reply?_eq (i : Nat) (call : Body.Stream.Call) (p : Passes) :
    p.reply? i call = p.at? i (Body.Stream.perform call) := by
  cases call <;> simp only [reply?, next?, collect?, close?, at?, Option.map_map] <;> rfl

theorem reply?_of_stream {s : Body.Stream} (h : p.streams[i]? = some s)
    (call : Body.Stream.Call) : p.reply? i call = some ((Body.Stream.perform call s).1,
      { p with streams := p.streams.set i (Body.Stream.perform call s).2 }) := by
  rw [reply?_eq, at?, h, Option.map_some]

/-- A call on pass `i` has led from `p` to `q`. The body and the other passes are as they were. -/
structure Moved (i : Nat) (p q : Passes) : Prop where
  opened : i < p.streams.length
  body_eq : q.body = p.body
  length_eq : q.streams.length = p.streams.length
  others : ∀ j, j ≠ i → q.streams[j]? = p.streams[j]?

theorem moved_of_reply? {q : Passes} {call : Body.Stream.Call} {reply : Reply}
    (h : p.reply? i call = some (reply, q)) : Moved i p q := by
  rw [reply?_eq, at?] at h
  obtain ⟨s, hstream, hs⟩ := Option.map_eq_some_iff.1 h
  obtain ⟨-, rfl⟩ := Prod.mk.inj hs
  have hopened : i < p.streams.length := (List.getElem?_eq_some_iff.1 hstream).1
  exact ⟨hopened, rfl, List.length_set, fun j hj => List.getElem?_set_ne (Ne.symm hj)⟩

theorem opens_open (calls : List Call) : opens (.open :: calls) = opens calls + 1 :=
  List.countP_cons_of_pos rfl

theorem opens_on (call : Body.Stream.Call) (calls : List Call) :
    opens (.on i call :: calls) = opens calls :=
  List.countP_cons_of_neg Bool.false_ne_true

theorem callsOn_on (call : Body.Stream.Call) (calls : List Call) :
    callsOn i (.on i call :: calls) = call :: callsOn i calls :=
  List.filterMap_cons_some (if_pos rfl)

theorem callsOn_on_ne (h : j ≠ i) (call : Body.Stream.Call) (calls : List Call) :
    callsOn i (.on j call :: calls) = callsOn i calls :=
  List.filterMap_cons_none (if_neg h)

theorem repliesOf_cons (reply : Reply) (replies : List (Nat × Reply)) :
    repliesOf i ((i, reply) :: replies) = reply :: repliesOf i replies :=
  List.filterMap_cons_some (if_pos rfl)

theorem repliesOf_cons_ne (h : j ≠ i) (reply : Reply) (replies : List (Nat × Reply)) :
    repliesOf i ((j, reply) :: replies) = repliesOf i replies :=
  List.filterMap_cons_none (if_neg h)

/-- A pass that stands at `s` replies to what is asked of it as `s` alone would. -/
theorem repliesOf_replies {s : Body.Stream} (h : p.streams[i]? = some s) (calls : List Call) :
    repliesOf i (p.replies calls) = (Body.Stream.run (callsOn i calls) s).1 := by
  induction calls generalizing p s with
  | nil => rfl
  | cons call calls ih =>
    cases call with
    | «open» =>
      refine ih (p := p.open.2) ?_
      rw [«open», List.getElem?_append_left (List.getElem?_eq_some_iff.1 h).1, h]
    | on j call =>
      rw [replies]
      by_cases hj : j = i
      · subst hj
        have hset : (p.streams.set j (Body.Stream.perform call s).2)[j]? =
            some (Body.Stream.perform call s).2 :=
          List.getElem?_set_self (List.getElem?_eq_some_iff.1 h).1
        rw [reply?_of_stream h, callsOn_on, Body.Stream.run]
        dsimp only
        rw [repliesOf_cons, ih hset]
      · rw [callsOn_on_ne hj]
        cases hreply : p.reply? j call with
        | none => exact ih h
        | some result =>
          have hmoved := moved_of_reply? hreply
          dsimp only
          rw [repliesOf_cons_ne hj, ih ((hmoved.others i (Ne.symm hj)).trans h)]

/-- A pass replies to what is asked of it after it was opened. -/
theorem repliesOf_replies_open {before : List Call} (h : p.streams.length + opens before = i)
    (after : List Call) : repliesOf i (p.replies (before ++ .open :: after)) =
      (Body.Stream.run (callsOn i after) (Body.inMemory p.body).open).1 := by
  induction before generalizing p with
  | nil =>
    refine repliesOf_replies (p := p.open.2) ?_ after
    subst h
    exact List.getElem?_concat_length
  | cons call before ih =>
    cases call with
    | «open» =>
      have hlength : p.open.2.streams.length = p.streams.length + 1 := List.length_append
      rw [opens_open] at h
      exact ih (p := p.open.2) (by omega)
    | on j call =>
      rw [opens_on] at h
      rw [List.cons_append, replies]
      cases hreply : p.reply? j call with
      | none => exact ih h
      | some result =>
        have hmoved := moved_of_reply? hreply
        -- pass `j` was there already, as it has replied, and pass `i` was not
        have hj : j ≠ i := by
          have hopened := hmoved.opened
          omega
        have hlength := hmoved.length_eq
        dsimp only
        rw [repliesOf_cons_ne hj, ih (by omega), hmoved.body_eq]

end Passes

namespace InMemory
open PacketStream

/-- What is given by the passes over `b`, of which there may be any number. -/
structure CutInto (b : InMemory) (size : Nat) (packets : List Octets) : Prop where
  flatten_eq : packets.flatten = b.content
  length_eq : (Body.inMemory b).length = some (packets.map List.length).sum
  full : ∀ p ∈ packets.dropLast, p.length = size
  last : ∀ p ∈ packets.getLast?, p ≠ [] ∧ p.length ≤ size
  pulls_eq : ∀ k, (pulls k (Body.inMemory b).open).1 =
    (List.range k).map fun i => packet (packets.getD i [])
  /-- Pass `i` is the one that is opened after `i` others. What is asked of these, before or after,
  makes no difference. -/
  repliesOf_eq : ∀ before after, let i := Passes.opens before
    Passes.repliesOf i ((Passes.new b).replies (before ++ .open :: after)) =
      told packets (Passes.callsOn i after)
  silent : ∀ calls earlier reply later, told packets calls = earlier ++ reply :: later →
    Reply.IsEnd reply → ∀ r ∈ later, Reply.IsSilent r
  /-- Content takes up at most half of what a bound can count. So however far a pass has come, the
  bounds of its next packet can be counted, and they lie within the content. -/
  inRange : ∀ limit, b.content.length ≤ limit / 2 → ∀ calls s,
    (Body.Stream.run calls (Body.inMemory b).open).2 = .inMemory s →
      s.pullAt? limit b.content = some s.next

theorem exists_cutInto (b : InMemory) (n : Nat) :
    ∃ packets, CutInto (b.withPacketSize n) (max 1 n) packets := by
  generalize hc : b.withPacketSize n = c
  have hover := Stream.over_open c
  have hsize : c.packetSize = max 1 n := by
    rw [← hc]
    rfl
  have hflatten : c.open.packets.flatten = c.content := by
    rw [hover.flatten_packets, remaining_open]
  have hne := Stream.ne_nil_of_mem_packets c.open
  refine ⟨c.open.packets, ?_⟩
  constructor
  case flatten_eq => exact hflatten
  case length_eq => rw [← List.length_flatten, hflatten, Body.length]
  case full => exact hsize ▸ hover.length_of_mem_dropLast
  case last =>
    intro p hp
    have hmem := List.mem_of_mem_getLast? hp
    exact ⟨hne p hmem, hsize ▸ hover.length_le_of_mem_packets p hmem⟩
  case pulls_eq => exact hover.pulls_eq
  case repliesOf_eq =>
    intro before after
    obtain ⟨s, -, hrun⟩ := hover.run (Passes.callsOn (Passes.opens before) after)
    have hi : (Passes.new c).streams.length + Passes.opens before = Passes.opens before :=
      Nat.zero_add _
    exact (Passes.repliesOf_replies_open hi after).trans (congrArg Prod.fst hrun)
  case silent =>
    intro calls earlier reply later htold
    exact Body.Stream.silent_of_told hne htold
  case inRange =>
    intro limit hlimit calls s hs
    obtain ⟨t, ht, hrun⟩ := hover.run calls
    obtain rfl : t = s := by
      have heq := (congrArg Prod.snd hrun).symm.trans hs
      exact Body.Stream.inMemory.inj heq
    exact ht.pullAt?_eq hlimit

end InMemory
end HttpWire
