import HttpWire.Proofs.Body.Account

/-! A body whose octets before it are known too: how much of the input was received, and when reads
were made. -/
namespace HttpWire.BodyReader
open Script PacketStream

/-- The body was preceded by the octets `before`, and of `rest` the octets `out` were handed out. -/
structure Ledger (before rest out : Octets) (b : BodyReader) (s : Script) : Prop where
  delivered_eq : b.delivered = out.length
  received_eq : s.received = before ++ (out ++ b.retained)
  rest_eq : rest = out ++ b.retained ++ s.unread
  surplus_past : b.surplus ≠ [] → b.leftover = [] ∧ b.length = some b.delivered
  delivered_le : ∀ n, b.length = some n → b.delivered ≤ n
  reads : ∀ n, b.length = some n → s.ReadsOnlyWhile (·.length < before.length + n)

variable {before rest out : Octets} {b b' : BodyReader} {s s' : Script}

/-- Only a body that is not complete is read from the connection, and with nothing left over. -/
theorem advances_of_pull {p : Progress (Except Error Octets)} (hp : b.pull s = (p, b', s')) :
    s' = s ∨ b.isComplete = false ∧ b.leftover = [] ∧ ∃ packet, s.Advances packet s' := by
  cases moves_of_pull hp with
  | settled => exact .inl rfl
  | complete => exact .inl rfl
  | leftover => exact .inl rfl
  | ended hdone hb hleft hpull => exact .inr ⟨hb, hleft, _, PacketReader.advances_pull hpull⟩
  | packet hdone hb hleft hne hpull =>
    exact .inr ⟨hb, hleft, _, PacketReader.advances_pull hpull⟩
  | failed hdone hb hleft hpull => exact .inr ⟨hb, hleft, _, PacketReader.advances_pull hpull⟩
  | putOff hdone hb hleft hpull => exact .inr ⟨hb, hleft, _, PacketReader.advances_pull hpull⟩
  | stalled hdone hb hleft hpull => exact .inr ⟨hb, hleft, _, PacketReader.advances_pull hpull⟩

namespace Ledger

theorem account (h : Ledger before rest out b s) : Account rest out b s :=
  ⟨h.delivered_eq, h.rest_eq, h.surplus_past, h.delivered_le⟩

/-- One pull, of any script: what it answers with is added to what was handed out. -/
theorem pull {p : Progress (Except Error Octets)} (h : Ledger before rest out b s)
    (hp : b.pull s = (p, b', s')) : Ledger before rest (out ++ answered p) b' s' := by
  have haccount := h.account.pull hp
  have hlength := (kept_pull hp).1
  constructor
  · exact haccount.delivered_eq
  · have hwhole : s'.received ++ s'.unread = s.received ++ s.unread := by
      obtain rfl | ⟨-, -, packet, ha⟩ := advances_of_pull hp
      · rfl
      · exact ha.received_append_unread
    apply (List.append_left_inj s'.unread).1
    rw [hwhole, h.received_eq, List.append_assoc before, List.append_assoc before,
      ← haccount.stream_eq, h.rest_eq]
  · exact haccount.stream_eq
  · exact haccount.surplus_past
  · exact haccount.delivered_le
  · intro n hn
    rw [hlength] at hn
    obtain rfl | ⟨hb, hleft, packet, ha⟩ := advances_of_pull hp
    · exact h.reads n hn
    · refine ha.readsOnlyWhile _ ?_ (h.reads n hn)
      have hlt := lt_of_isComplete_eq_false hb hn
      have hretained : b.retained = [] := by
        rw [retained, hleft, h.account.surplus_eq_nil hb, List.append_nil]
      rw [h.received_eq, hretained, List.append_nil, List.length_append, ← h.delivered_eq]
      omega

/-- One answer, of any script. -/
theorem next {t t' : BodyReader × Script} {answer : Option (Except Error Octets)}
    (h : Ledger before rest out t.1 t.2) (hn : PacketStream.next t = (answer, t')) :
    Ledger before rest (out ++ packetOf answer) t'.1 t'.2 := by
  fun_induction PacketStream.next t with
  | case1 t r u hpull =>
    obtain ⟨rfl, rfl⟩ := Prod.mk.inj hn
    cases r <;> exact h.pull hpull
  | case2 t u hpull =>
    obtain ⟨rfl, rfl⟩ := Prod.mk.inj hn
    exact h.pull hpull
  | case3 t u hpull hlt ih =>
    have hu : Ledger before rest (out ++ []) u.1 u.2 := h.pull hpull
    rw [List.append_nil] at hu
    exact ih hu hn

/-- Any number of pulls, of any script. -/
theorem pulls {t : BodyReader × Script} (h : Ledger before rest out t.1 t.2) (k : Nat) :
    Ledger before rest (out ++ handedOut (PacketStream.pulls k t).1)
      (PacketStream.pulls k t).2.1 (PacketStream.pulls k t).2.2 := by
  induction k generalizing t out with
  | zero =>
    rw [PacketStream.pulls, handedOut, List.flatMap_nil, List.append_nil]
    exact h
  | succ k ih =>
    cases hn : PacketStream.next t with
    | mk answer u =>
      rw [pulls_succ hn, handedOut, List.flatMap_cons, ← List.append_assoc]
      exact ih (h.next hn)

/-- When the declared length was handed out, what was read past it is recovered, and it is followed
by what is still unread. -/
theorem recover?_eq {n : Nat} (h : Ledger before rest out b s) (hn : b.length = some n)
    (hout : out.length = n) (hopen : b.source.isOpen = true) :
    ∃ surplus, b.recover? = some surplus ∧ surplus ++ s.unread = rest.drop n := by
  have hlength : b.length = some b.delivered := by rw [hn, h.delivered_eq, hout]
  refine ⟨b.retained, ?_, ?_⟩
  · rw [h.account.recover?_eq, if_pos ⟨hlength, hopen⟩]
  · rw [h.rest_eq, List.append_assoc, List.drop_left' hout]

end Ledger
end HttpWire.BodyReader
