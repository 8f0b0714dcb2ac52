import HttpWire.Connection

/-! Streams of packets. An empty packet marks the end of a stream. -/
namespace HttpWire

/-- A stream with state `τ`. The supply bounds the packets to come and the times a pull is put
off. -/
class PacketStream (τ : Type) where
  /-- Ask once for the next packet. -/
  pull : τ → Progress (Except Error Octets) × τ
  supply : τ → Nat
  supply_again {t t' : τ} : pull t = (.again, t') → supply t' < supply t
  supply_packet {t t' : τ} {p : Octets} (hp : p ≠ []) :
    pull t = (.ready (.ok p), t') → supply t' < supply t

namespace PacketStream
variable {τ : Type} [PacketStream τ]

/-- Ask until the next packet comes, or an error. There is no answer if the stream stalls. -/
def next (t : τ) : Option (Except Error Octets) × τ :=
  match h : pull t with
  | (.ready r, t') => (some r, t')
  | (.stalled, t') => (none, t')
  | (.again, t') =>
    have := supply_again h
    next t'
termination_by supply t

theorem supply_next {t t' : τ} {p : Octets} (hp : p ≠ []) (h : next t = (some (.ok p), t')) :
    supply t' < supply t := by
  fun_induction next t with
  | case1 t r u hpull =>
    simp only [Prod.mk.injEq, Option.some.injEq] at h
    obtain ⟨rfl, rfl⟩ := h
    exact supply_packet hp hpull
  | case2 => simp at h
  | case3 t u hpull hlt ih => exact Nat.lt_trans (ih h) hlt

/-- Pull to the end. The packets already there are given with the latest first. -/
def collectAfter (earlier : List Octets) (t : τ) : Option (Except Error Octets) × τ :=
  match h : next t with
  | (some (.ok p), t') =>
    if hp : p = [] then (some (.ok earlier.reverse.flatten), t')
    else
      have := supply_next hp h
      collectAfter (p :: earlier) t'
  | (some (.error e), t') => (some (.error e), t')
  | (none, t') => (none, t')
termination_by supply t

/-- All packets up to the end, joined. A stream of a single packet gives that packet itself. -/
def collect (t : τ) : Option (Except Error Octets) × τ :=
  match next t with
  | (some (.ok first), t) =>
    if first = [] then (some (.ok first), t)
    else
      match next t with
      | (some (.ok second), t) =>
        if second = [] then (some (.ok first), t) else collectAfter [second, first] t
      | (some (.error e), t) => (some (.error e), t)
      | (none, t) => (none, t)
  | (some (.error e), t) => (some (.error e), t)
  | (none, t) => (none, t)

/-- The answers up to the first that is no packet with octets: the end, an error or a stall. -/
def answers (t : τ) : List (Option (Except Error Octets)) × τ :=
  match h : next t with
  | (some (.ok p), t') =>
    if hp : p = [] then ([some (.ok p)], t')
    else
      have := supply_next hp h
      let (rest, t'') := answers t'
      (some (.ok p) :: rest, t'')
  | (some (.error e), t') => ([some (.error e)], t')
  | (none, t') => ([none], t')
termination_by supply t

end PacketStream
end HttpWire
