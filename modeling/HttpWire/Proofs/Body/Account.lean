import HttpWire.Body.Reader
import HttpWire.Proofs.Connection.Input
import HttpWire.Proofs.Packet.Pulls

/-! The octets of a body as it is read: those handed out, those retained and those still unread
follow on one another, and none is lost or comes twice. -/
namespace HttpWire.BodyReader
open Script PacketStream

/-- What one pull can do. The end is looked for first, then what came before, and only then the
connection. -/
inductive Moves {σ : Type} [Connection σ] (b : BodyReader) (s : σ) :
    Progress (Except Error Octets) → BodyReader → σ → Prop
  | settled (hdone : b.done = true) : b.Moves s (.ready (.ok [])) b s
  | complete (hdone : b.done = false) (hb : b.isComplete = true) :
    b.Moves s (.ready (.ok [])) b.finish s
  | leftover (hdone : b.done = false) (hb : b.isComplete = false) (hleft : b.leftover ≠ []) :
    b.Moves s (.ready (.ok (deliver { b with leftover := [] } b.leftover).1))
      (deliver { b with leftover := [] } b.leftover).2 s
  | ended {s' : σ} (hdone : b.done = false) (hb : b.isComplete = false) (hleft : b.leftover = [])
    (hpull : b.source.pull s = (.ready (.ok []), s')) :
    b.Moves s (.ready b.truncate) { b with done := true } s'
  | packet {packet : Octets} {s' : σ} (hdone : b.done = false) (hb : b.isComplete = false)
    (hleft : b.leftover = []) (hne : packet ≠ [])
    (hpull : b.source.pull s = (.ready (.ok packet), s')) :
    b.Moves s (.ready (.ok (b.deliver packet).1)) (b.deliver packet).2 s'
  | failed {e : Error} {s' : σ} (hdone : b.done = false) (hb : b.isComplete = false)
    (hleft : b.leftover = []) (hpull : b.source.pull s = (.ready (.error e), s')) :
    b.Moves s (.ready (.error e)) b s'
  | putOff {s' : σ} (hdone : b.done = false) (hb : b.isComplete = false)
    (hleft : b.leftover = []) (hpull : b.source.pull s = (.again, s')) : b.Moves s .again b s'
  | stalled {s' : σ} (hdone : b.done = false) (hb : b.isComplete = false)
    (hleft : b.leftover = []) (hpull : b.source.pull s = (.stalled, s')) : b.Moves s .stalled b s'

theorem moves_pull {σ : Type} [Connection σ] (b : BodyReader) (s : σ) :
    b.Moves s (b.pull s).1 (b.pull s).2.1 (b.pull s).2.2 := by
  unfold pull
  split
  · exact .settled ‹_›
  rename_i hdone
  have hdone : b.done = false := by simpa using hdone
  split
  · exact .complete hdone ‹_›
  rename_i hb
  have hb : b.isComplete = false := by simpa using hb
  split
  · exact .leftover hdone hb ‹_›
  rename_i hleft
  have hleft : b.leftover = [] := by simpa using hleft
  split
  · exact .ended hdone hb hleft ‹_›
  · exact .packet hdone hb hleft (List.cons_ne_nil _ _) ‹_›
  · exact .failed hdone hb hleft ‹_›
  · exact .putOff hdone hb hleft ‹_›
  · exact .stalled hdone hb hleft ‹_›

theorem moves_of_pull {σ : Type} [Connection σ] {b b' : BodyReader} {s s' : σ}
    {p : Progress (Except Error Octets)} (h : b.pull s = (p, b', s')) : b.Moves s p b' s' := by
  have hmoves := b.moves_pull s
  rwa [h] at hmoves

/-- No pull changes the declared length or lets go of the connection. -/
theorem kept_pull {σ : Type} [Connection σ] {b b' : BodyReader} {s s' : σ}
    {p : Progress (Except Error Octets)} (h : b.pull s = (p, b', s')) :
    b'.length = b.length ∧ b'.source = b.source := by
  cases moves_of_pull h <;> exact ⟨rfl, rfl⟩

/-- The octets that were read and are not handed out. -/
def retained (b : BodyReader) : Octets := b.leftover ++ b.surplus

/-- Of `stream`, the octets `out` were handed out. Those retained come next, and then those still
unread. -/
structure Account (stream out : Octets) (b : BodyReader) (s : Script) : Prop where
  delivered_eq : b.delivered = out.length
  stream_eq : stream = out ++ b.retained ++ s.unread
  surplus_past : b.surplus ≠ [] → b.leftover = [] ∧ b.length = some b.delivered
  delivered_le : ∀ n, b.length = some n → b.delivered ≤ n

variable {stream out : Octets} {b b' : BodyReader} {s s' : Script}

theorem lt_of_isComplete_eq_false {n : Nat} (hb : b.isComplete = false) (hn : b.length = some n) :
    b.delivered < n := by
  unfold isComplete at hb
  rw [hn] at hb
  simpa using hb

theorem share_le (b : BodyReader) (packet : Octets) : b.share packet ≤ packet.length := by
  unfold share
  split
  · exact Nat.le_refl _
  · exact Nat.min_le_left _ _

theorem share_pos {packet : Octets} (hb : b.isComplete = false) (hp : packet ≠ []) :
    0 < b.share packet := by
  have hpos := List.length_pos_iff.2 hp
  unfold share
  split
  · exact hpos
  · rename_i n hn
    have hlt := lt_of_isComplete_eq_false hb hn
    omega

theorem deliver_ne_nil {packet : Octets} (hb : b.isComplete = false) (hp : packet ≠ []) :
    (b.deliver packet).1 ≠ [] := by
  have hpos := share_pos hb hp
  show packet.take (b.share packet) ≠ []
  rw [Ne, List.take_eq_nil_iff]
  rintro (hzero | hnil)
  · omega
  · exact hp hnil

theorem delivered_add_share_le {n : Nat} (hn : b.length = some n) (hle : b.delivered ≤ n)
    (packet : Octets) : b.delivered + b.share packet ≤ n := by
  simp only [share, hn]
  omega

/-- Part of a packet is kept only if the rest of it makes the body complete. -/
theorem length_eq_of_drop_share_ne_nil {packet : Octets} (hb : b.isComplete = false)
    (hp : packet.drop (b.share packet) ≠ []) :
    b.length = some (b.delivered + b.share packet) := by
  cases hn : b.length with
  | none => simp [share, hn] at hp
  | some n =>
    have hlt := lt_of_isComplete_eq_false hb hn
    have hpos := List.length_pos_iff.2 hp
    rw [List.length_drop] at hpos
    simp only [share, hn, Option.some.injEq] at hpos ⊢
    omega

namespace Account

theorem surplus_eq_nil (h : Account stream out b s) (hb : b.isComplete = false) :
    b.surplus = [] := by
  by_cases hne : b.surplus = []
  · exact hne
  · have hlt := lt_of_isComplete_eq_false hb (h.surplus_past hne).2
    exact absurd hlt (Nat.lt_irrefl _)

theorem length_eq_of_isComplete (h : Account stream out b s) (hb : b.isComplete = true) :
    b.length = some b.delivered := by
  unfold isComplete at hb
  split at hb
  · simp at hb
  · rename_i n hn
    have hle := h.delivered_le n hn
    have hge : n ≤ b.delivered := by simpa using hb
    rw [hn, Nat.le_antisymm hge hle]

/-- A read of a body that is not complete, with nothing retained. -/
theorem receive {packet : Octets} (h : Account stream out b s) (hb : b.isComplete = false)
    (hleft : b.leftover = []) (ha : s.Advances packet s') :
    Account stream out { b with leftover := packet } s' := by
  have hsurplus := h.surplus_eq_nil hb
  have hretained : b.retained = [] := by rw [retained, hleft, hsurplus, List.append_nil]
  constructor
  · exact h.delivered_eq
  · rw [h.stream_eq, hretained, ha.unread_eq, retained, hsurplus, List.append_nil,
      List.append_nil, List.append_assoc]
  · exact fun hne => absurd hsurplus hne
  · exact h.delivered_le

/-- A read that brings no packet. -/
theorem receive_nil (h : Account stream out b s) (hb : b.isComplete = false)
    (hleft : b.leftover = []) (ha : s.Advances [] s') : Account stream out b s' := by
  have hsame : { b with leftover := [] } = b := by rw [← hleft]
  rw [← hsame]
  exact h.receive hb hleft ha

theorem markDone (h : Account stream out b s) : Account stream out { b with done := true } s :=
  ⟨h.delivered_eq, h.stream_eq, h.surplus_past, h.delivered_le⟩

theorem finish (h : Account stream out b s) (hb : b.isComplete = true) :
    Account stream out b.finish s := by
  have hretained : b.finish.retained = b.retained := by
    by_cases hleft : b.leftover = []
    · simp [BodyReader.finish, retained, hleft]
    · by_cases hsurplus : b.surplus = []
      · simp [BodyReader.finish, retained, hleft, hsurplus]
      · exact absurd (h.surplus_past hsurplus).1 hleft
  constructor
  · exact h.delivered_eq
  · rw [hretained, h.stream_eq]
  · exact fun _ => ⟨rfl, h.length_eq_of_isComplete hb⟩
  · exact h.delivered_le

theorem deliver {packet : Octets} (h : Account stream out { b with leftover := packet } s)
    (hb : b.isComplete = false) (hleft : b.leftover = []) :
    Account stream (out ++ (b.deliver packet).1) (b.deliver packet).2 s := by
  have hsurplus : b.surplus = [] := h.surplus_eq_nil hb
  have hshare := b.share_le packet
  have hretained : (b.deliver packet).2.retained = packet.drop (b.share packet) := by
    simp only [BodyReader.deliver, retained, hleft, hsurplus, List.nil_append]
    split
    · exact ‹_ = []›.symm
    · rfl
  have hpacket : (b.deliver packet).1 ++ (b.deliver packet).2.retained =
      retained { b with leftover := packet } := by
    rw [hretained, retained, hsurplus, List.append_nil]
    exact List.take_append_drop _ _
  constructor
  · show b.delivered + b.share packet = (out ++ packet.take (b.share packet)).length
    have hdelivered : b.delivered = out.length := h.delivered_eq
    rw [List.length_append, List.length_take, hdelivered, Nat.min_eq_left hshare]
  · rw [List.append_assoc out, hpacket, h.stream_eq]
  · intro hne
    refine ⟨hleft, length_eq_of_drop_share_ne_nil hb fun hnil => hne ?_⟩
    simp only [BodyReader.deliver, hnil, if_true, hsurplus]
  · intro n hn
    have hle : b.delivered ≤ n := h.delivered_le n hn
    exact delivered_add_share_le (b := b) hn hle packet

theorem append_nil (h : Account stream out b s) : Account stream (out ++ []) b s := by
  rw [List.append_nil]
  exact h

/-- One pull, of any script: what it answers with is added to what was handed out. -/
theorem pull {p : Progress (Except Error Octets)} (h : Account stream out b s)
    (hp : b.pull s = (p, b', s')) : Account stream (out ++ answered p) b' s' := by
  cases moves_of_pull hp with
  | settled hdone => exact h.append_nil
  | complete hdone hb => exact (h.finish hb).append_nil
  | leftover hdone hb hleft => exact deliver (b := { b with leftover := [] }) h hb rfl
  | ended hdone hb hleft hpull =>
    have hempty : answered (.ready b.truncate) = [] := by
      unfold truncate
      split <;> rfl
    rw [hempty]
    exact (h.receive_nil hb hleft (PacketReader.advances_pull hpull)).markDone.append_nil
  | packet hdone hb hleft hne hpull =>
    exact (h.receive hb hleft (PacketReader.advances_pull hpull)).deliver hb hleft
  | failed hdone hb hleft hpull =>
    exact (h.receive_nil hb hleft (PacketReader.advances_pull hpull)).append_nil
  | putOff hdone hb hleft hpull =>
    exact (h.receive_nil hb hleft (PacketReader.advances_pull hpull)).append_nil
  | stalled hdone hb hleft hpull => exact absurd hpull PacketReader.pull_ne_stalled

/-- What is retained is given back with the connection, if the declared length was handed out. -/
theorem recover?_eq (h : Account stream out b s) : b.recover? =
    if b.length = some b.delivered ∧ b.source.isOpen = true then some b.retained else none := by
  have hretained : (if b.leftover = [] then b.surplus else b.leftover) = b.retained := by
    split
    · rename_i hleft
      rw [retained, hleft, List.nil_append]
    · rename_i hleft
      have hsurplus : b.surplus = [] := not_not.1 fun hne => hleft (h.surplus_past hne).1
      rw [retained, hsurplus, List.append_nil]
  rw [recover?, hretained]
  simp only [Bool.and_eq_true, decide_eq_true_eq]

end Account
end HttpWire.BodyReader
