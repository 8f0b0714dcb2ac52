import HttpWire.Proofs.Body.Ledger

/-! A body pulled to its end: the octets that come, and how the end is told. -/
namespace HttpWire.BodyReader
open Script PacketStream

section Kept
variable {σ : Type} [Connection σ]

theorem kept_next {t t' : BodyReader × σ} {answer : Option (Except Error Octets)}
    (h : PacketStream.next t = (answer, t')) :
    t'.1.length = t.1.length ∧ t'.1.source = t.1.source := by
  fun_induction PacketStream.next t with
  | case1 t r u hpull =>
    obtain ⟨rfl, rfl⟩ := Prod.mk.inj h
    exact kept_pull hpull
  | case2 t u hpull =>
    obtain ⟨rfl, rfl⟩ := Prod.mk.inj h
    exact kept_pull hpull
  | case3 t u hpull hlt ih =>
    obtain ⟨hlength, hsource⟩ := ih h
    obtain ⟨hlength', hsource'⟩ := kept_pull hpull
    exact ⟨hlength.trans hlength', hsource.trans hsource'⟩

theorem kept_pulls (k : Nat) (t : BodyReader × σ) :
    (pulls k t).2.1.length = t.1.length ∧ (pulls k t).2.1.source = t.1.source := by
  induction k generalizing t with
  | zero => exact ⟨rfl, rfl⟩
  | succ k ih =>
    cases hn : PacketStream.next t with
    | mk answer u =>
      rw [pulls_succ hn]
      have hkept := kept_next hn
      exact ⟨(ih u).1.trans hkept.1, (ih u).2.trans hkept.2⟩

end Kept

variable {before rest out : Octets} {b b' : BodyReader} {s s' : Script}

/-- The part of `rest` that is body. -/
def bodyOf (length : Option Nat) (rest : Octets) : Octets :=
  match length with
  | none => rest
  | some n => rest.take n

/-- How a body ends that `rest` is there for. -/
def endOf (length : Option Nat) (rest : Octets) : Except Error Octets :=
  match length with
  | none => .ok []
  | some n => if rest.length < n then .error (.bodyTruncated n rest.length) else .ok []

theorem packetOf_endOf (length : Option Nat) (rest : Octets) :
    packetOf (some (endOf length rest)) = [] := by
  unfold endOf
  split
  · rfl
  · split <;> rfl

/-- The end of the input is told from other packets, and no read fails. -/
structure Flows (b : BodyReader) (s : Script) : Prop where
  isOpen : b.source.isOpen = true
  packetSize_pos : 0 < b.source.packetSize
  smooth : s.IsSmooth

theorem Flows.of_source_eq (hf : b.Flows s) (hsource : b'.source = b.source)
    (hsmooth : s'.IsSmooth) : b'.Flows s' := by
  constructor
  · rw [hsource]
    exact hf.isOpen
  · rw [hsource]
    exact hf.packetSize_pos
  · exact hsmooth

namespace Ledger

theorem end_of_isComplete (h : Ledger before rest out b s) (hb : b.isComplete = true) :
    endOf b.length rest = .ok [] ∧ out = bodyOf b.length rest := by
  rw [h.account.length_eq_of_isComplete hb, h.rest_eq, h.delivered_eq, endOf, bodyOf,
    List.append_assoc, List.take_left]
  refine ⟨if_neg ?_, rfl⟩
  rw [List.length_append]
  omega

theorem end_of_unread_eq_nil (h : Ledger before rest out b s) (hb : b.isComplete = false)
    (hleft : b.leftover = []) (hunread : s.unread = []) :
    b.truncate = endOf b.length rest ∧ out = bodyOf b.length rest := by
  have hrest : rest = out := by
    rw [h.rest_eq, retained, hleft, h.account.surplus_eq_nil hb, hunread, List.append_nil,
      List.append_nil, List.append_nil]
  subst hrest
  unfold truncate endOf bodyOf
  cases hn : b.length with
  | none => exact ⟨rfl, rfl⟩
  | some n =>
    have hlt := lt_of_isComplete_eq_false hb hn
    rw [h.delivered_eq] at hlt ⊢
    exact ⟨(if_pos hlt).symm, (List.take_of_length_le (Nat.le_of_lt hlt)).symm⟩

/-- A pull before the end, when the input flows: it is put off, brings a packet, or is the end. -/
theorem pull_cases {p : Progress (Except Error Octets)} (h : Ledger before rest out b s)
    (hf : b.Flows s) (hdone : b.done = false) (hp : b.pull s = (p, b', s')) :
    s'.IsSmooth ∧
      (p = .again ∧ b'.done = false ∨
        (∃ packet, packet ≠ [] ∧ p = .ready (.ok packet) ∧ b'.done = false) ∨
        p = .ready (endOf b.length rest) ∧ out = bodyOf b.length rest) := by
  have hadvance {packet : Progress (Except Error Octets)} {u : Script}
      (hpull : b.source.pull s = (packet, u)) : u.IsSmooth :=
    (PacketReader.advances_pull hpull).smooth hf.smooth
  cases moves_of_pull hp with
  | settled hdone' => simp [hdone] at hdone'
  | complete _ hb =>
    obtain ⟨hend, hout⟩ := h.end_of_isComplete hb
    exact ⟨hf.smooth, .inr (.inr ⟨by rw [hend], hout⟩)⟩
  | leftover _ hb hleft =>
    refine ⟨hf.smooth, .inr (.inl ⟨_, ?_, rfl, hdone⟩)⟩
    exact deliver_ne_nil (b := { b with leftover := [] }) hb hleft
  | ended _ hb hleft hpull =>
    have hunread := PacketReader.unread_eq_nil_of_pull hf.isOpen hf.packetSize_pos hf.smooth hpull
    obtain ⟨hend, hout⟩ := h.end_of_unread_eq_nil hb hleft hunread
    exact ⟨hadvance hpull, .inr (.inr ⟨by rw [hend], hout⟩)⟩
  | packet _ hb hleft hne hpull =>
    exact ⟨hadvance hpull, .inr (.inl ⟨_, deliver_ne_nil hb hne, rfl, hdone⟩)⟩
  | failed _ _ _ hpull => exact absurd hpull (PacketReader.pull_ne_error hf.smooth)
  | putOff _ _ _ hpull => exact ⟨hadvance hpull, .inl ⟨rfl, hdone⟩⟩
  | stalled _ _ _ hpull => exact absurd hpull PacketReader.pull_ne_stalled

/-- An answer before the end, when the input flows: a packet, or the end. -/
theorem next_cases {t t' : BodyReader × Script} {answer : Option (Except Error Octets)}
    (h : Ledger before rest out t.1 t.2) (hf : t.1.Flows t.2) (hdone : t.1.done = false)
    (hn : PacketStream.next t = (answer, t')) :
    (∃ packet, packet ≠ [] ∧ answer = some (.ok packet) ∧ t'.1.done = false ∧ t'.1.Flows t'.2) ∨
      answer = some (endOf t.1.length rest) ∧ out = bodyOf t.1.length rest := by
  fun_induction PacketStream.next t with
  | case1 t r u hpull =>
    obtain ⟨rfl, rfl⟩ := Prod.mk.inj hn
    obtain ⟨hsmooth, hp | hp | hp⟩ := h.pull_cases hf hdone hpull
    · simp at hp
    · obtain ⟨packet, hne, hr, hdone'⟩ := hp
      obtain rfl := Progress.ready.inj hr
      have hsource := (kept_pull hpull).2
      exact .inl ⟨packet, hne, rfl, hdone', hf.of_source_eq hsource hsmooth⟩
    · obtain ⟨hr, hout⟩ := hp
      exact .inr ⟨congrArg some (Progress.ready.inj hr), hout⟩
  | case2 t u hpull =>
    obtain ⟨-, hp | ⟨packet, -, hp, -⟩ | hp⟩ := h.pull_cases hf hdone hpull
    · simp at hp
    · simp at hp
    · simp at hp
  | case3 t u hpull hlt ih =>
    obtain ⟨hsmooth, hp | ⟨packet, -, hp, -⟩ | hp⟩ := h.pull_cases hf hdone hpull
    · have hu : Ledger before rest (out ++ []) u.1 u.2 := h.pull hpull
      rw [List.append_nil] at hu
      obtain ⟨hlength, hsource⟩ := kept_pull hpull
      rw [← hlength]
      exact ih hu (hf.of_source_eq hsource hsmooth) hp.2 hn
    · simp at hp
    · simp at hp

/-- Pulled to its end, a body comes to the declared part of `rest`, and ends as it should. -/
theorem answers_eq {t : BodyReader × Script} (h : Ledger before rest out t.1 t.2)
    (hf : t.1.Flows t.2) (hdone : t.1.done = false) :
    ∃ packets : List Octets, (PacketStream.answers t).1 =
        packets.map (fun p => some (.ok p)) ++ [some (endOf t.1.length rest)] ∧
      out ++ packets.flatten = bodyOf t.1.length rest := by
  fun_induction PacketStream.answers t generalizing out with
  | case1 t t' hn =>
    obtain ⟨p, hne, hp, -⟩ | ⟨hend, hout⟩ := h.next_cases hf hdone hn
    · simp at hp
      exact absurd hp hne
    · exact ⟨[], by rw [hend]; rfl, by rw [hout]; exact List.append_nil _⟩
  | case2 t p t' hn hne hlt answers t'' hanswers ih =>
    obtain ⟨q, -, hq, hdone', hf'⟩ | ⟨hend, -⟩ := h.next_cases hf hdone hn
    · obtain ⟨packets, heq, hout⟩ := ih (h.next hn) hf' hdone'
      rw [hanswers] at heq
      have hlength := (kept_next hn).1
      rw [hlength] at heq hout
      refine ⟨p :: packets, ?_, ?_⟩
      · show some (.ok p) :: answers = _
        rw [show answers = _ from heq]
        rfl
      · rw [List.flatten_cons, ← List.append_assoc]
        exact hout
    · have hnil := packetOf_endOf t.1.length rest
      rw [← hend] at hnil
      exact absurd hnil hne
  | case3 t e t' hn =>
    obtain ⟨p, -, hp, -⟩ | ⟨hend, hout⟩ := h.next_cases hf hdone hn
    · simp at hp
    · exact ⟨[], by rw [hend]; rfl, by rw [hout]; exact List.append_nil _⟩
  | case4 t t' hn =>
    obtain ⟨p, -, hp, -⟩ | ⟨hend, hout⟩ := h.next_cases hf hdone hn
    · simp at hp
    · simp at hend

end Ledger
end HttpWire.BodyReader
