import HttpWire.Proofs.Body.Account

/-! A body under any sequence of pulls, dropped pulls and shutdowns: what it has handed out, what it
retains, and what it does once its end was reported. -/
namespace HttpWire.BodyReader
open Script PacketStream

/-- What can be asked of a body. A pull may be dropped when it has not ended after so many polls. -/
inductive Call
  | pull
  | abandon (polls : Nat)
  | shutdown

/-- What a call has come to. A dropped pull has no answer. -/
inductive Report
  | pulled (answer : Option (Except Error Octets))
  | shutdown (result : Except Error Unit)

namespace Report

/-- The octets that a call has handed out. -/
def octets : Report → Octets
  | pulled answer => packetOf answer
  | shutdown _ => []

def isShutdown : Report → Bool
  | pulled _ => false
  | shutdown _ => true

/-- The end of the body was reported, or that of the input before it, or the body was shut down. -/
def isEnd : Report → Bool
  | pulled (some (.ok packet)) => packet == []
  | pulled (some (.error (.bodyTruncated _ _))) => true
  | pulled _ => false
  | shutdown _ => true

end Report

def perform {σ : Type} [Connection σ] : Call → BodyReader × σ → Report × BodyReader × σ
  | .pull, t =>
    let (answer, t) := next t
    (.pulled answer, t)
  | .abandon polls, t =>
    let (answer, t) := attempt polls t
    (.pulled answer, t)
  | .shutdown, (b, s) =>
    let (result, b, s) := b.shutdown s
    (.shutdown result, b, s)

/-- One call after the other, each with its report. -/
def run {σ : Type} [Connection σ] : List Call → BodyReader × σ → List Report × BodyReader × σ
  | [], t => ([], t)
  | call :: calls, t =>
    let (report, t) := perform call t
    let (reports, t) := run calls t
    (report :: reports, t)

/-- The octets that all these calls have handed out. -/
def reported (reports : List Report) : Octets := reports.flatMap Report.octets

/-- No call has shut the body down. -/
def StillOpen (reports : List Report) : Prop := ∀ r ∈ reports, r.isShutdown = false

def HasEnded (reports : List Report) : Prop := ∃ r ∈ reports, r.isEnd = true

/-- What the calls so far have left behind. After a shutdown what was left over is dropped, and the
account is of what then remains. -/
structure Standing (length : Option Nat) (stream : Octets) (reports : List Report)
    (t : BodyReader × Script) : Prop where
  length_eq : t.1.length = length
  account : ∃ rest, Account rest (reported reports) t.1 t.2 ∧ (StillOpen reports → rest = stream)
  isOpen_iff : t.1.source.isOpen = true ↔ StillOpen reports
  done_of_ended : HasEnded reports → t.1.done = true

variable {length : Option Nat} {stream : Octets} {reports : List Report}
  {t u : BodyReader × Script}

theorem reported_append (r : Report) :
    reported (reports ++ [r]) = reported reports ++ r.octets := by
  rw [reported, List.flatMap_append, List.flatMap_singleton, reported]

theorem stillOpen_append {r : Report} :
    StillOpen (reports ++ [r]) ↔ StillOpen reports ∧ r.isShutdown = false := by
  rw [StillOpen, List.forall_mem_append, List.forall_mem_singleton, StillOpen]

theorem hasEnded_append {r : Report} :
    HasEnded (reports ++ [r]) ↔ HasEnded reports ∨ r.isEnd = true := by
  simp only [HasEnded, List.mem_append, List.mem_singleton, or_and_right, exists_or, exists_eq_left]

/-- A pull that reports the end leaves the body done. -/
theorem done_of_isEnd {b b' : BodyReader} {s s' : Script} {p : Progress (Except Error Octets)}
    (hp : b.pull s = (p, b', s')) (hend : (Report.pulled (answerOf p)).isEnd = true) :
    b'.done = true := by
  cases moves_of_pull hp with
  | settled hdone => exact hdone
  | complete => rfl
  | leftover hdone hb hleft =>
    have hne := deliver_ne_nil (b := { b with leftover := [] }) hb hleft
    exact absurd (beq_iff_eq.1 hend) hne
  | ended => rfl
  | packet hdone hb hleft hne => exact absurd (beq_iff_eq.1 hend) (deliver_ne_nil hb hne)
  | failed hdone hb hleft hpull =>
    obtain ⟨cause, rfl⟩ := PacketReader.exists_io_of_pull hpull
    exact Bool.noConfusion hend
  | putOff => exact Bool.noConfusion hend
  | stalled => exact Bool.noConfusion hend

theorem pull_of_done {σ : Type} [Connection σ] {b : BodyReader} (hdone : b.done = true) (s : σ) :
    b.pull s = (.ready (.ok []), b, s) := by
  rw [pull, if_pos hdone]

namespace Standing

/-- A pull that has not ended yet counts for nothing. -/
theorem append_none_iff : Standing length stream (reports ++ [.pulled none]) t ↔
    Standing length stream reports t := by
  have hreported : reported (reports ++ [.pulled none]) = reported reports := by
    rw [reported_append]
    exact List.append_nil _
  have hopen : StillOpen (reports ++ [.pulled none]) ↔ StillOpen reports := by
    simp [stillOpen_append, Report.isShutdown]
  have hended : HasEnded (reports ++ [.pulled none]) ↔ HasEnded reports := by
    simp [hasEnded_append, Report.isEnd]
  constructor
  · rintro ⟨hlength, haccount, hisOpen, hdone⟩
    rw [hreported, hopen] at haccount
    exact ⟨hlength, haccount, hisOpen.trans hopen, hdone ∘ hended.2⟩
  · rintro ⟨hlength, haccount, hisOpen, hdone⟩
    rw [← hreported, ← hopen] at haccount
    exact ⟨hlength, haccount, hisOpen.trans hopen.symm, hdone ∘ hended.1⟩

/-- One pull, ended or not. -/
theorem pull {p : Progress (Except Error Octets)} (h : Standing length stream reports t)
    (hp : t.1.pull t.2 = (p, u)) :
    Standing length stream (reports ++ [.pulled (answerOf p)]) u := by
  obtain ⟨rest, haccount, hrest⟩ := h.account
  obtain ⟨hlength, hsource⟩ := kept_pull hp
  constructor
  · exact hlength.trans h.length_eq
  · refine ⟨rest, ?_, fun hopen => hrest (stillOpen_append.1 hopen).1⟩
    have hoctets : (Report.pulled (answerOf p)).octets = answered p := by
      obtain (_ | _) | _ | _ := p <;> rfl
    rw [reported_append, hoctets]
    exact haccount.pull hp
  · rw [hsource, h.isOpen_iff, stillOpen_append]
    exact ⟨fun hopen => ⟨hopen, rfl⟩, And.left⟩
  · intro hended
    obtain hended | hend := hasEnded_append.1 hended
    · have hdone := h.done_of_ended hended
      obtain ⟨-, rfl⟩ := Prod.mk.inj (hp.symm.trans (pull_of_done hdone t.2))
      exact hdone
    · exact done_of_isEnd hp hend

theorem attempt {k : Nat} {answer : Option (Except Error Octets)}
    (h : Standing length stream reports t) (ha : attempt k t = (answer, u)) :
    Standing length stream (reports ++ [.pulled answer]) u := by
  induction k generalizing t with
  | zero =>
    obtain ⟨rfl, rfl⟩ := Prod.mk.inj ha
    exact append_none_iff.2 h
  | succ k ih =>
    cases hp : PacketStream.pull t with
    | mk p v =>
      have hv := h.pull hp
      rw [PacketStream.attempt, hp] at ha
      cases p with
      | ready r =>
        obtain ⟨rfl, rfl⟩ := Prod.mk.inj ha
        exact hv
      | again => exact ih (append_none_iff.1 hv) ha
      | stalled => exact ih (append_none_iff.1 hv) ha

/-- What was left over is dropped, and the surplus stays. -/
theorem shutdown (h : Standing length stream reports t) :
    Standing length stream (reports ++ [.shutdown (t.1.shutdown t.2).1]) (t.1.shutdown t.2).2 := by
  obtain ⟨rest, haccount, -⟩ := h.account
  have hclosed : ¬ StillOpen (reports ++ [.shutdown (t.1.shutdown t.2).1]) := by
    rw [stillOpen_append]
    exact fun hopen => Bool.noConfusion hopen.2
  constructor
  · exact h.length_eq
  · refine ⟨reported reports ++ t.1.surplus ++ t.2.unread, ?_, fun hopen => absurd hopen hclosed⟩
    rw [reported_append, Report.octets, List.append_nil]
    constructor
    · exact haccount.delivered_eq
    · show _ = reported reports ++ ([] ++ t.1.surplus) ++ (t.1.source.shutdown t.2).2.2.unread
      rw [PacketReader.unread_shutdown, List.nil_append]
    · exact fun hsurplus => ⟨rfl, (haccount.surplus_past hsurplus).2⟩
    · exact haccount.delivered_le
  · show (t.1.source.shutdown t.2).2.1.isOpen = true ↔ _
    rw [PacketReader.isOpen_shutdown]
    exact ⟨fun hopen => Bool.noConfusion hopen, fun hopen => absurd hopen hclosed⟩
  · exact fun _ => rfl

/-- Each call, whatever it comes to. -/
theorem perform (h : Standing length stream reports t) (call : Call) :
    Standing length stream (reports ++ [(perform call t).1]) (BodyReader.perform call t).2 := by
  cases call with
  | pull =>
    obtain ⟨k, hk⟩ := exists_attempt_eq_next t
    exact h.attempt hk
  | abandon polls => exact h.attempt rfl
  | shutdown => exact h.shutdown

theorem run (h : Standing length stream reports t) (calls : List Call) :
    Standing length stream (reports ++ (run calls t).1) (BodyReader.run calls t).2 := by
  induction calls generalizing reports t with
  | nil =>
    rw [BodyReader.run, List.append_nil]
    exact h
  | cons call calls ih =>
    have hrun := ih (h.perform call)
    rw [List.append_assoc] at hrun
    exact hrun

end Standing

theorem standing_new (packetSize : Nat) (length : Option Nat) (leftover : Octets) (s : Script) :
    Standing length (leftover ++ s.unread) []
      (BodyReader.new (.new packetSize) length leftover, s) := by
  constructor
  · rfl
  · refine ⟨_, ?_, fun _ => rfl⟩
    constructor
    · rfl
    · show _ = [] ++ (leftover ++ []) ++ s.unread
      rw [List.append_nil, List.nil_append]
    · exact fun hsurplus => absurd rfl hsurplus
    · exact fun n _ => Nat.zero_le n
  · exact ⟨fun _ => List.forall_mem_nil _, fun _ => rfl⟩
  · rintro ⟨r, hr, -⟩
    exact absurd hr List.not_mem_nil

end HttpWire.BodyReader
