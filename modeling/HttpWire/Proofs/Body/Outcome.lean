import HttpWire.Proofs.Body.Account
import HttpWire.Proofs.Connection.Course
import HttpWire.Proofs.Packet.Collect

/-! What a body comes to in all, told from the octets that are there for it and from how the input
ends, and not from the pieces it comes in. -/
namespace HttpWire.BodyReader
open Script PacketStream

/-- What a body still comes to of which so many octets are out, when `rest` comes before the input
ends or breaks off. -/
def outcome (length : Option Nat) (delivered : Nat) (rest : Octets) (failure : Option IoError) :
    Except Error Octets :=
  match length with
  | none =>
    match failure with
    | none => .ok rest
    | some e => .error (.io e)
  | some n =>
    if n ≤ delivered + rest.length then .ok (rest.take (n - delivered))
    else .error ((failure.map .io).getD (.bodyTruncated n (delivered + rest.length)))

def outcomeOf (t : BodyReader × Script) : Except Error Octets :=
  outcome t.1.length t.1.delivered (t.1.leftover ++ t.2.course.1) t.2.course.2

/-- The end was not reported, and the connection is held. -/
structure Going (b : BodyReader) : Prop where
  done_eq : b.done = false
  isOpen : b.source.isOpen = true
  packetSize_pos : 0 < b.source.packetSize

variable {b b' : BodyReader} {s s' : Script}

theorem going_new (packetSize : Nat) (length : Option Nat) (leftover : Octets) :
    (new (.new packetSize) length leftover).Going :=
  ⟨rfl, rfl, Nat.lt_of_lt_of_le Nat.zero_lt_one (Nat.le_max_left _ _)⟩

theorem outcome_of_isComplete (hb : b.isComplete = true) (rest : Octets)
    (failure : Option IoError) : outcome b.length b.delivered rest failure = .ok [] := by
  cases hn : b.length with
  | none => simp [isComplete, hn] at hb
  | some n =>
    have hle : n ≤ b.delivered := by simpa [isComplete, hn] using hb
    have htake : rest.take (n - b.delivered) = [] := by
      rw [Nat.sub_eq_zero_of_le hle, List.take_zero]
    simp only [outcome, if_pos (Nat.le_add_right_of_le hle), htake]

/-- The input has ended, and nothing is left over. -/
theorem outcome_nil (hb : b.isComplete = false) :
    outcome b.length b.delivered [] none = b.truncate := by
  cases hn : b.length with
  | none => simp only [outcome, truncate, hn]
  | some n =>
    have hlt := lt_of_isComplete_eq_false hb hn
    rw [truncate, hn]
    exact if_neg (Nat.not_le.2 hlt)

theorem outcome_nil_failure (hb : b.isComplete = false) (e : IoError) :
    outcome b.length b.delivered [] (some e) = .error (.io e) := by
  cases hn : b.length with
  | none => rfl
  | some n =>
    have hlt := lt_of_isComplete_eq_false hb hn
    exact if_neg (Nat.not_le.2 hlt)

/-- The first packet of the rest counts for as much of it as is body. -/
theorem outcome_packet (hb : b.isComplete = false) (packet rest : Octets)
    (failure : Option IoError) : outcome b.length b.delivered (packet ++ rest) failure =
      (outcome b.length (b.delivered + b.share packet) rest failure).map
        (packet.take (b.share packet) ++ ·) := by
  cases hn : b.length with
  | none =>
    have hshare : packet.take (b.share packet) = packet := by simp [share, hn]
    cases failure <;> simp only [outcome, Except.map, hshare]
  | some n =>
    have hlt := lt_of_isComplete_eq_false hb hn
    have hshare : b.share packet = min packet.length (n - b.delivered) := by simp [share, hn]
    have hle : n ≤ b.delivered + (packet ++ rest).length ↔
        n ≤ b.delivered + b.share packet + rest.length := by
      rw [List.length_append, hshare]
      omega
    have htake : (packet ++ rest).take (n - b.delivered) =
        packet.take (b.share packet) ++ rest.take (n - (b.delivered + b.share packet)) := by
      have hrest : n - (b.delivered + b.share packet) = n - b.delivered - packet.length := by omega
      rw [List.take_append, List.take_eq_take_min, hrest, hshare, Nat.min_comm]
    by_cases hwhole : n ≤ b.delivered + b.share packet + rest.length
    · simp only [outcome, if_pos (hle.2 hwhole), if_pos hwhole, htake, Except.map]
    · have hcount : b.delivered + (packet ++ rest).length =
          b.delivered + b.share packet + rest.length := by
        rw [List.length_append, hshare]
        omega
      simp only [outcome, if_neg hwhole, hcount, Except.map]

/-- What an answer says of the outcome: it is the outcome, or a packet at the front of it. -/
inductive Leads (t : BodyReader × Script) : Progress (Except Error Octets) →
    BodyReader × Script → Prop
  | ended {r : Except Error Octets} {u : BodyReader × Script} (hr : packetOf (some r) = [])
    (h : outcomeOf t = r) : Leads t (.ready r) u
  | packet {p : Octets} {u : BodyReader × Script} (hp : p ≠ []) (hu : u.1.Going)
    (h : outcomeOf t = (outcomeOf u).map (p ++ ·)) : Leads t (.ready (.ok p)) u
  | putOff {u : BodyReader × Script} (hu : u.1.Going) (h : outcomeOf t = outcomeOf u) :
    Leads t .again u

theorem Leads.of_outcome_eq {t u v : BodyReader × Script} {p : Progress (Except Error Octets)}
    (hu : Leads u p v) (h : outcomeOf t = outcomeOf u) : Leads t p v := by
  cases hu with
  | ended hr hu => exact .ended hr (h.trans hu)
  | packet hp hv hu => exact .packet hp hv (h.trans hu)
  | putOff hv hu => exact .putOff hv (h.trans hu)

theorem leads_of_pull {p : Progress (Except Error Octets)} (hb : b.Going)
    (hp : b.pull s = (p, b', s')) : Leads (b, s) p (b', s') := by
  have hfollows {p : Progress (Except Error Octets)} (hpull : b.source.pull s = (p, s')) :=
    PacketReader.follows_pull hb.isOpen hb.packetSize_pos hpull
  cases moves_of_pull hp with
  | settled hdone => simp [hb.done_eq] at hdone
  | complete hdone hcomplete => exact .ended rfl (outcome_of_isComplete hcomplete _ _)
  | leftover hdone hcomplete hleft =>
    refine .packet (deliver_ne_nil (b := { b with leftover := [] }) hcomplete hleft)
      ⟨hb.done_eq, hb.isOpen, hb.packetSize_pos⟩ ?_
    exact outcome_packet hcomplete b.leftover s.course.1 s.course.2
  | ended hdone hcomplete hleft hpull =>
    have hend : packetOf (some b.truncate) = [] := by
      unfold truncate
      split <;> rfl
    refine .ended hend ?_
    cases hfollows hpull with
    | ended h => rw [outcomeOf, hleft, h, List.append_nil, outcome_nil hcomplete]
    | packet hne => exact absurd rfl hne
  | packet hdone hcomplete hleft hne hpull =>
    refine .packet (deliver_ne_nil hcomplete hne) ⟨hb.done_eq, hb.isOpen, hb.packetSize_pos⟩ ?_
    cases hfollows hpull with
    | ended h => exact absurd rfl hne
    | packet hne h =>
      rw [outcomeOf, hleft, h, List.nil_append, outcome_packet hcomplete]
      show _ = (outcome b.length _ (b.leftover ++ s'.course.1) s'.course.2).map _
      rw [hleft]
      rfl
  | failed hdone hcomplete hleft hpull =>
    refine .ended rfl ?_
    cases hfollows hpull with
    | failed h => rw [outcomeOf, hleft, h, List.append_nil, outcome_nil_failure hcomplete]
  | putOff hdone hcomplete hleft hpull =>
    refine .putOff hb ?_
    cases hfollows hpull with
    | putOff h => rw [outcomeOf, h, outcomeOf]
  | stalled hdone hcomplete hleft hpull => exact absurd hpull PacketReader.pull_ne_stalled

theorem leads_of_next {t u : BodyReader × Script} {answer : Option (Except Error Octets)}
    (ht : t.1.Going) (hn : PacketStream.next t = (answer, u)) :
    ∃ r, answer = some r ∧ Leads t (.ready r) u := by
  fun_induction PacketStream.next t with
  | case1 t r u hpull =>
    obtain ⟨rfl, rfl⟩ := Prod.mk.inj hn
    exact ⟨r, rfl, leads_of_pull ht hpull⟩
  | case2 t u hpull => cases leads_of_pull ht hpull
  | case3 t v hpull hlt ih =>
    cases leads_of_pull ht hpull with
    | putOff hv h =>
      obtain ⟨r, hr, hleads⟩ := ih hv hn
      exact ⟨r, hr, hleads.of_outcome_eq h⟩

/-- Pulled to its end, a body comes to its outcome. -/
theorem joined_answers {t : BodyReader × Script} (ht : t.1.Going) :
    joined (PacketStream.answers t).1 = some (outcomeOf t) := by
  fun_induction PacketStream.answers t with
  | case1 t t' hn =>
    obtain ⟨r, hr, hleads⟩ := leads_of_next ht hn
    obtain rfl := Option.some.inj hr
    cases hleads with
    | ended hend h => exact congrArg some h.symm
    | packet hp => exact absurd rfl hp
  | case2 t p t' hn hp hlt rest t'' hrest ih =>
    obtain ⟨r, hr, hleads⟩ := leads_of_next ht hn
    obtain rfl := Option.some.inj hr
    cases hleads with
    | ended hend h => exact absurd hend hp
    | packet hp ht' h =>
      have hjoined : joined rest = some (outcomeOf t') := by
        rw [← ih ht', hrest]
      rw [joined_packet, hjoined, h]
      rfl
  | case3 t e t' hn =>
    obtain ⟨r, hr, hleads⟩ := leads_of_next ht hn
    obtain rfl := Option.some.inj hr
    cases hleads with
    | ended hend h => exact congrArg some h.symm
  | case4 t t' hn =>
    obtain ⟨r, hr, -⟩ := leads_of_next ht hn
    simp at hr

/-- A body that was whole has as many octets as were declared. -/
theorem length_of_outcome {n : Nat} {rest o : Octets} {failure : Option IoError}
    (h : outcome (some n) 0 rest failure = .ok o) : o.length = n := by
  simp only [outcome] at h
  split at h
  · rename_i hle
    rw [← Except.ok.inj h, List.length_take]
    omega
  · simp at h

end HttpWire.BodyReader
