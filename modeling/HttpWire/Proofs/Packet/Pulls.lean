import HttpWire.Packet.Stream
import Mathlib

/-! Pulling a stream a number of times, past its end if need be. -/
namespace HttpWire.PacketStream
variable {τ : Type} [PacketStream τ]

/-- The answers to so many pulls. -/
def pulls : Nat → τ → List (Option (Except Error Octets)) × τ
  | 0, t => ([], t)
  | k + 1, t =>
    let (answer, t) := next t
    let (answers, t) := pulls k t
    (answer :: answers, t)

/-- Ask at most so many times for the next packet. There is no answer if none has come by then. -/
def attempt : Nat → τ → Option (Except Error Octets) × τ
  | 0, t => (none, t)
  | k + 1, t =>
    match pull t with
    | (.ready r, t) => (some r, t)
    | (.again, t) => attempt k t
    | (.stalled, t) => attempt k t

/-- The answer of a pull that has ended. -/
def answerOf : Progress (Except Error Octets) → Option (Except Error Octets)
  | .ready r => some r
  | _ => none

/-- The octets of an answer, if it is a packet. -/
def packetOf : Option (Except Error Octets) → Octets
  | some (.ok p) => p
  | _ => []

/-- What came in these answers. -/
def handedOut (answers : List (Option (Except Error Octets))) : Octets := answers.flatMap packetOf

/-- The next answer comes after some number of pulls. -/
theorem exists_attempt_eq_next (t : τ) : ∃ k, attempt k t = next t := by
  fun_induction next t with
  | case1 t r u hpull => exact ⟨1, by simp only [attempt, hpull]⟩
  | case2 t u hpull => exact ⟨1, by simp only [attempt, hpull]⟩
  | case3 t u hpull hlt ih =>
    obtain ⟨k, hk⟩ := ih
    exact ⟨k + 1, by simp only [attempt, hpull, hk]⟩

theorem handedOut_append (earlier later : List (Option (Except Error Octets))) :
    handedOut (earlier ++ later) = handedOut earlier ++ handedOut later :=
  List.flatMap_append

theorem handedOut_packets (packets : List Octets) :
    handedOut (packets.map fun p => some (.ok p)) = packets.flatten := by
  rw [handedOut, List.flatMap_map]
  exact List.flatMap_id

theorem answers_of_end {t t' : τ} {answer : Option (Except Error Octets)}
    (h : next t = (answer, t')) (hend : packetOf answer = []) : answers t = ([answer], t') := by
  rw [answers]
  split <;> obtain ⟨rfl, rfl⟩ := Prod.mk.inj (h.symm.trans ‹_›)
  · exact dif_pos hend
  · rfl
  · rfl

theorem answers_of_packet {t t' : τ} {p : Octets} (h : next t = (some (.ok p), t'))
    (hp : p ≠ []) : answers t = (some (.ok p) :: (answers t').1, (answers t').2) := by
  rw [answers]
  split <;> simp_all

theorem pulls_succ {t t' : τ} {answer : Option (Except Error Octets)} (h : next t = (answer, t'))
    (k : Nat) : pulls (k + 1) t = (answer :: (pulls k t').1, (pulls k t').2) := by
  rw [pulls, h]

/-- To pull up to the end is to pull so many times. -/
theorem pulls_length_answers (t : τ) : pulls (answers t).1.length t = answers t := by
  fun_induction answers t with
  | case1 t t' h => exact pulls_succ h 0
  | case2 t p t' h hp hlt rest t'' hrest ih =>
    rw [hrest] at ih
    rw [List.length_cons, pulls_succ h, ih]
  | case3 t e t' h => exact pulls_succ h 0
  | case4 t t' h => exact pulls_succ h 0

end HttpWire.PacketStream
