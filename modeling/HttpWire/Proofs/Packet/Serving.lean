import HttpWire.Proofs.Packet.Lock

/-! The callers of a shared reader are served. Whoever finds the lock free takes it, and is answered
as a caller that is alone. If the callers are polled in rounds, all of them are answered. -/
namespace HttpWire.SharedReader
open PacketStream

variable {calls : Nat → Call} {callers schedule : List Nat} {i j : Nat}

section Alone
variable {σ : Type} {p : SharedReader σ} {t u : PacketReader × σ} {report : Report}
  {r : Except Error Octets}

/-- Caller `i` is answered and has let the lock go. The reader and its far side are left so. -/
def settle (i : Nat) (report : Report) (t : PacketReader × σ) (p : SharedReader σ) :
    SharedReader σ :=
  { p with reader := t.1, far := t.2, holder := none }.become i (.answered report)

theorem stage_become_self (x : Stage) : (p.become i x).stage i = x := if_pos rfl

theorem connection?_eq_none_iff : p.connection? = none ↔ p.reader.isOpen = false := by
  simp [connection?]

theorem settle_stage_self : (p.settle i report t).stage i = .answered report :=
  stage_become_self _

theorem settle_stage_of_ne (hne : j ≠ i) : (p.settle i report t).stage j = p.stage j := if_neg hne

theorem settle_become (x : Stage) (reader : PacketReader) (far : σ) (holder : Option Nat) :
    ({ p with reader, far, holder }.become i x).settle i report t = p.settle i report t := by
  have hstage : (fun j => if j = i then .answered report else if j = i then x else p.stage j) =
      fun j => if j = i then .answered report else p.stage j := by
    funext j
    split <;> rfl
  simp only [settle, become, hstage]

variable [Connection σ]

theorem polls_append (earlier later : List Nat) (p : SharedReader σ) :
    p.polls calls (earlier ++ later) = (p.polls calls earlier).polls calls later := by
  induction earlier generalizing p with
  | nil => rfl
  | cons i earlier ih => exact ih _

theorem poll_of_answered (h : p.stage i = .answered report) : p.poll calls i = p := by
  rw [poll, h]

theorem poll_of_pull (hstage : p.stage i = .queued) (hholder : p.holder = none)
    (hcall : calls i = .pull) : p.poll calls i = (p.enter i).proceed i := by
  simp only [poll, hstage, hholder, hcall, Option.isSome_none, Bool.false_eq_true, if_false]

theorem poll_of_shutdown (hstage : p.stage i = .queued) (hholder : p.holder = none)
    (hcall : calls i = .shutdown) : p.poll calls i = (p.enter i).take i := by
  simp only [poll, hstage, hholder, hcall, Option.isSome_none, Bool.false_eq_true, if_false]

theorem poll_of_reading (h : p.stage i = .reading) : p.poll calls i = p.proceed i := by
  rw [poll, h]

theorem poll_of_closing (h : p.stage i = .closing) : p.poll calls i = p.finish i := by
  rw [poll, h]

/-- A caller that is put off goes on until its read has ended. -/
theorem exists_polls_proceed (calls : Nat → Call) (i : Nat) (hnext : next u = (some r, t))
    (hu : u = (p.reader, p.far)) :
    ∃ k, (p.proceed i).polls calls (List.replicate k i) = p.settle i (.pulled r) t := by
  fun_induction next u generalizing p with
  | case1 u r' v hpull =>
    obtain ⟨rfl, rfl⟩ : r' = r ∧ v = t := by simpa using hnext
    subst hu
    obtain ⟨hready, rfl⟩ := Prod.mk.inj hpull
    refine ⟨0, ?_⟩
    rw [proceed, show p.reader.pull p.far = (.ready r', _) from Prod.ext hready rfl]
    rfl
  | case2 u v hpull => simp at hnext
  | case3 u v hpull hlt ih =>
    subst hu
    obtain ⟨hagain, rfl⟩ := Prod.mk.inj hpull
    have hproceed : p.proceed i =
        { p with far := (p.reader.pull p.far).2, holder := some i }.become i .reading := by
      rw [proceed, show p.reader.pull p.far = (.again, _) from Prod.ext hagain rfl]
    have hreading : (p.proceed i).stage i = .reading := by
      rw [hproceed]
      exact stage_become_self _
    obtain ⟨k, hk⟩ := ih (p := p.proceed i) hnext (by rw [hproceed]; rfl)
    refine ⟨k + 1, ?_⟩
    rw [List.replicate_succ, polls, poll_of_reading hreading, hk, hproceed]
    exact settle_become .reading p.reader _ _

/-- The one that has the lock is given the next packet of the stream. -/
theorem exists_polls_reading (hstage : p.stage i = .reading)
    (hnext : next (p.reader, p.far) = (some r, t)) :
    ∃ k, p.polls calls (List.replicate k i) = p.settle i (.pulled r) t := by
  obtain ⟨k, hk⟩ := exists_polls_proceed calls i hnext rfl
  refine ⟨k + 1, ?_⟩
  rw [List.replicate_succ, polls, poll_of_reading hstage, hk]

/-- The next to have the lock is given the next packet of the stream. -/
theorem exists_polls_pull (hstage : p.stage i = .queued) (hholder : p.holder = none)
    (hcall : calls i = .pull) (hnext : next (p.reader, p.far) = (some r, t)) :
    ∃ k, p.polls calls (List.replicate k i) = (p.enter i).settle i (.pulled r) t := by
  obtain ⟨k, hk⟩ := exists_polls_proceed (p := p.enter i) calls i hnext rfl
  refine ⟨k + 1, ?_⟩
  rw [List.replicate_succ, polls, poll_of_pull hstage hholder hcall, hk]

/-- The next to have the lock takes the connection and shuts it down. -/
theorem polls_shutdown (hstage : p.stage i = .queued) (hholder : p.holder = none)
    (hcall : calls i = .shutdown) :
    p.polls calls [i, i] = (p.enter i).settle i (.shutdown (p.reader.shutdown p.far).1)
      (p.reader.shutdown p.far).2 := by
  have hpoll := poll_of_shutdown hstage hholder hcall
  obtain ⟨⟨isOpen, packetSize⟩, far, holder, stage, order⟩ := p
  obtain rfl : holder = none := hholder
  cases isOpen with
  | true =>
    let q : SharedReader σ := ⟨⟨false, packetSize⟩, far, none, stage, order ++ [i]⟩
    rw [polls, polls, polls, hpoll, ← settle_become .closing q.reader far none]
    exact poll_of_closing (p := q.become i .closing) (stage_become_self _)
  | false =>
    rw [polls, polls, polls, hpoll]
    exact poll_of_answered (stage_become_self (.answered (.shutdown (.ok ()))))

end Alone

section Rounds
variable {q q' : SharedReader Script}

/-- How many steps a caller has to take yet, but for those that put it off. -/
def Stage.remaining : Stage → Nat
  | .queued => 2
  | .reading => 1
  | .closing => 1
  | .answered _ => 0

/-- What is left to do for these callers. -/
def load (callers : List Nat) (q : SharedReader Script) : Nat :=
  q.far.supply + (callers.map fun i => (q.stage i).remaining).sum

theorem load_le (callers : List Nat) (q : SharedReader Script) :
    load callers q ≤ q.far.supply + 2 * callers.length := by
  have hmem (n : Nat) (hn : n ∈ callers.map fun i => (q.stage i).remaining) : n ≤ 2 := by
    obtain ⟨i, -, rfl⟩ := List.mem_map.1 hn
    cases q.stage i <;> simp [Stage.remaining]
  have hsum := List.sum_le_card_nsmul _ 2 hmem
  rw [List.length_map, smul_eq_mul] at hsum
  rw [load]
  omega

/-- A step brings its caller on, or takes something from the supply. -/
theorem load_lt (hi : i ∈ callers) (ht : Touches i q q') (hsupply : q'.far.supply ≤ q.far.supply)
    (hremaining : (q'.stage i).remaining ≤ (q.stage i).remaining)
    (hlt : q'.far.supply < q.far.supply ∨ (q'.stage i).remaining < (q.stage i).remaining) :
    load callers q' < load callers q := by
  have hle (j : Nat) : (q'.stage j).remaining ≤ (q.stage j).remaining := by
    by_cases hj : j = i
    · rw [hj]
      exact hremaining
    · rw [ht.stage_eq j hj]
  rw [load, load]
  obtain hlt | hlt := hlt
  · exact Nat.add_lt_add_of_lt_of_le hlt (List.sum_le_sum fun j _ => hle j)
  · exact Nat.add_lt_add_of_le_of_lt hsupply (List.sum_lt_sum _ _ (fun j _ => hle j) ⟨i, hi, hlt⟩)

theorem load_proceed_lt (hi : i ∈ callers) (hstage : 0 < (q.stage i).remaining) :
    load callers (q.proceed i) < load callers q := by
  have ht := q.touches_proceed i
  obtain ⟨r, t, hpull, h⟩ | ⟨t, hpull, h⟩ := q.proceed_cases i
  all_goals rw [h] at ht ⊢
  · have hsupply : t.supply ≤ q.far.supply := by
      have hle := PacketReader.supply_pull_le q.reader q.far
      rwa [hpull] at hle
    refine load_lt hi ht hsupply ?_ (.inr ?_) <;> rw [stage_become_self]
    · exact Nat.zero_le _
    · exact hstage
  · have hsupply : t.supply < q.far.supply := PacketReader.supply_pull_again hpull
    refine load_lt hi ht (Nat.le_of_lt hsupply) ?_ (.inl hsupply)
    rw [stage_become_self]
    exact hstage

theorem load_take_lt (hi : i ∈ callers) (hstage : q.stage i = .queued) :
    load callers (q.take i) < load callers q := by
  have hlt : ((q.take i).stage i).remaining < (q.stage i).remaining := by
    rw [take, hstage]
    split
    · rw [stage_become_self]
      exact Nat.one_lt_two
    · rw [stage_become_self]
      exact Nat.two_pos
  have hsupply : (q.take i).far.supply = q.far.supply := by rw [(take_eq i q).1]
  exact load_lt hi (q.touches_take i) (Nat.le_of_eq hsupply) (Nat.le_of_lt hlt) (.inr hlt)

theorem load_finish_lt (hi : i ∈ callers) (hstage : q.stage i = .closing) :
    load callers (q.finish i) < load callers q := by
  have hlt : ((q.finish i).stage i).remaining < (q.stage i).remaining := by
    rw [finish_eq, stage_become_self, hstage]
    exact Nat.one_pos
  exact load_lt hi (q.touches_finish i) (Nat.le_refl _) (Nat.le_of_lt hlt) (.inr hlt)

/-- Nothing comes of polling the caller: it was answered, or the lock is not free. -/
def Waits (i : Nat) (q : SharedReader Script) : Prop :=
  (∃ report, q.stage i = .answered report) ∨ q.stage i = .queued ∧ q.holder ≠ none

theorem poll_of_waits (h : q.Waits i) : q.poll calls i = q := by
  obtain ⟨report, hstage⟩ | ⟨hstage, hholder⟩ := h
  · exact poll_of_answered hstage
  · rw [poll, hstage]
    exact if_pos (Option.isSome_iff_ne_none.2 hholder)

theorem load_poll_lt (hi : i ∈ callers) (h : ¬ q.Waits i) :
    load callers (q.poll calls i) < load callers q := by
  cases hstage : q.stage i with
  | queued =>
    have hholder : q.holder = none := by
      by_contra hne
      exact h (.inr ⟨hstage, hne⟩)
    cases hcall : calls i with
    | pull =>
      rw [poll_of_pull hstage hholder hcall]
      refine load_proceed_lt (q := q.enter i) hi ?_
      rw [show (q.enter i).stage i = .queued from hstage]
      exact Nat.two_pos
    | shutdown =>
      rw [poll_of_shutdown hstage hholder hcall]
      exact load_take_lt (q := q.enter i) hi hstage
  | reading =>
    rw [poll_of_reading hstage]
    refine load_proceed_lt hi ?_
    rw [hstage]
    exact Nat.one_pos
  | closing =>
    rw [poll_of_closing hstage]
    exact load_finish_lt hi hstage
  | answered report => exact absurd (.inl ⟨report, hstage⟩) h

/-- A round leaves less to do, unless nobody in it can do anything. -/
theorem polls_round (calls : Nat → Call) (hmem : ∀ i ∈ schedule, i ∈ callers) :
    (q.polls calls schedule = q ∧ ∀ i ∈ schedule, q.Waits i) ∨
      load callers (q.polls calls schedule) < load callers q := by
  induction schedule generalizing q with
  | nil => exact .inl ⟨rfl, List.forall_mem_nil _⟩
  | cons i schedule ih =>
    obtain ⟨hi, hrest⟩ := List.forall_mem_cons.1 hmem
    by_cases hwaits : q.Waits i
    · rw [polls, poll_of_waits hwaits]
      obtain ⟨heq, hall⟩ | hlt := ih (q := q) hrest
      · exact .inl ⟨heq, List.forall_mem_cons.2 ⟨hwaits, hall⟩⟩
      · exact .inr hlt
    · have hlt : load callers (q.poll calls i) < load callers q := load_poll_lt hi hwaits
      obtain ⟨heq, -⟩ | hlt' := ih (q := q.poll calls i) hrest
      · rw [polls, heq]
        exact .inr hlt
      · exact .inr (hlt'.trans hlt)

theorem order_poll (hstage : q.stage i = .queued) (hholder : q.holder = none) :
    (q.poll calls i).order = q.order ++ [i] := by
  cases hcall : calls i with
  | pull =>
    rw [poll_of_pull hstage hholder hcall]
    exact ((q.enter i).touches_proceed i).order_eq
  | shutdown =>
    rw [poll_of_shutdown hstage hholder hcall]
    exact ((q.enter i).touches_take i).order_eq

theorem stage_poll_of_ne (hne : j ≠ i) : (q.poll calls i).stage j = q.stage j := by
  generalize hq : q.poll calls i = q'
  cases turns_of_poll hq with
  | rest => rfl
  | pull => exact ((q.enter i).touches_proceed i).stage_eq j hne
  | take => exact ((q.enter i).touches_take i).stage_eq j hne
  | proceed => exact (q.touches_proceed i).stage_eq j hne
  | finish => exact (q.touches_finish i).stage_eq j hne

theorem stage_polls_of_answered {report : Report} (h : q.stage i = .answered report)
    (schedule : List Nat) : (q.polls calls schedule).stage i = .answered report := by
  induction schedule generalizing q with
  | nil => exact h
  | cons j schedule ih =>
    by_cases hj : i = j
    · subst hj
      rw [polls, poll_of_answered h]
      exact ih h
    · exact ih ((stage_poll_of_ne hj).trans h)

namespace Orderly

/-- Only callers that are polled come to hold the lock. -/
theorem mem_of_holder_polls (h : Orderly calls q) (hholder : ∀ i, q.holder = some i → i ∈ callers)
    (hmem : ∀ i ∈ schedule, i ∈ callers) (j : Nat)
    (hj : (q.polls calls schedule).holder = some j) : j ∈ callers := by
  induction schedule generalizing q with
  | nil => exact hholder j hj
  | cons i schedule ih =>
    obtain ⟨hi, hrest⟩ := List.forall_mem_cons.1 hmem
    refine ih (h.poll i) (fun k hk => ?_) hrest hj
    by_cases hki : k = i
    · rw [hki]
      exact hi
    · have hreading := ((h.poll i).reading_iff k).2 hk
      rw [stage_poll_of_ne hki] at hreading
      exact hholder k ((h.reading_iff k).1 hreading)

/-- When nobody can do anything, nobody has the lock. -/
theorem answered_of_waits (h : Orderly calls q) (hholder : ∀ i, q.holder = some i → i ∈ callers)
    (hwaits : ∀ i ∈ callers, q.Waits i) (hi : i ∈ callers) :
    ∃ report, q.stage i = .answered report := by
  obtain hanswered | ⟨-, hne⟩ := hwaits i hi
  · exact hanswered
  · obtain ⟨j, hj⟩ := Option.ne_none_iff_exists'.1 hne
    have hreading := (h.reading_iff j).2 hj
    obtain ⟨report, hstage⟩ | ⟨hstage, -⟩ := hwaits j (hholder j hj)
    · exact Stage.noConfusion (hreading.symm.trans hstage)
    · exact Stage.noConfusion (hreading.symm.trans hstage)

/-- Whoever is taken along in every round is answered: each round leaves less to do, until one in
which nobody could do anything. -/
theorem answered_of_rounds (h : Orderly calls q) (hholder : ∀ i, q.holder = some i → i ∈ callers)
    {rounds : List (List Nat)} (hrounds : ∀ round ∈ rounds, ∀ i, i ∈ round ↔ i ∈ callers)
    (hload : load callers q < rounds.length) (hi : i ∈ callers) :
    ∃ report, (q.polls calls rounds.flatten).stage i = .answered report := by
  induction rounds generalizing q with
  | nil => exact absurd hload (Nat.not_lt_zero _)
  | cons round rounds ih =>
    obtain ⟨hround, hrest⟩ := List.forall_mem_cons.1 hrounds
    have hmem (j : Nat) (hj : j ∈ round) : j ∈ callers := (hround j).1 hj
    rw [List.flatten_cons, polls_append]
    obtain ⟨heq, hwaits⟩ | hlt := polls_round (q := q) calls hmem
    · obtain ⟨report, hstage⟩ :=
        h.answered_of_waits hholder (fun j hj => hwaits j ((hround j).2 hj)) hi
      rw [heq]
      exact ⟨report, stage_polls_of_answered hstage _⟩
    · rw [List.length_cons] at hload
      exact ih (h.polls round) (h.mem_of_holder_polls hholder hmem) hrest (by omega)

end Orderly
end Rounds

section Served
variable {q : SharedReader Script}

theorem exists_next (t : PacketReader × Script) : ∃ r u, next t = (some r, u) := by
  fun_induction next t with
  | case1 t r u hpull => exact ⟨r, u, rfl⟩
  | case2 t u hpull =>
    have hstalled : t.1.pull t.2 = (.stalled, _) := Prod.ext (Prod.mk.inj hpull).1 rfl
    exact absurd hstalled PacketReader.pull_ne_stalled
  | case3 t u hpull hlt ih => exact ih

/-- Callers that are polled get what they have called for. -/
structure Served (calls : Nat → Call) (q : SharedReader Script) : Prop where
  /-- Whoever finds the lock free takes it. -/
  order_poll : ∀ i, q.stage i = .queued → q.holder = none →
    (q.poll calls i).order = q.order ++ [i]
  /-- To pull is to be given the next packet of the stream, as if nobody else was there. -/
  polls_pull : ∀ i, q.stage i = .queued → q.holder = none → calls i = .pull →
    ∃ k r t, next (q.reader, q.far) = (some r, t) ∧
      q.polls calls (List.replicate k i) = (q.enter i).settle i (.pulled r) t
  /-- To shut down is to shut down the connection, and to be told what came of it. -/
  polls_shutdown : ∀ i, q.stage i = .queued → q.holder = none → calls i = .shutdown →
    q.polls calls [i, i] = (q.enter i).settle i (.shutdown (q.reader.shutdown q.far).1)
      (q.reader.shutdown q.far).2
  /-- A read that was put off ends with the next packet of the stream. -/
  polls_holder : ∀ i, q.holder = some i →
    ∃ k r t, next (q.reader, q.far) = (some r, t) ∧
      q.polls calls (List.replicate k i) = q.settle i (.pulled r) t
  /-- Once the connection is taken, nobody has to wait. -/
  poll_late : q.connection? = none → ∀ i, q.stage i = .queued →
    (q.poll calls i).stage i = .answered (silent (calls i))
  /-- Callers can have the lock in any order. -/
  inOrder : q.holder = none → ∀ callers : List Nat, callers.Nodup →
    (∀ i ∈ callers, q.stage i = .queued) → ∃ schedule,
      (q.polls calls schedule).order = q.order ++ callers ∧
        ∀ i ∈ callers, ∃ report, (q.polls calls schedule).stage i = .answered report
  /-- Callers that are polled round after round are all answered. -/
  polls_rounds : ∀ callers : List Nat, (∀ i, q.holder = some i → i ∈ callers) →
    ∀ rounds : List (List Nat), (∀ round ∈ rounds, ∀ i, i ∈ round ↔ i ∈ callers) →
      q.far.supply + 2 * callers.length < rounds.length →
        ∀ i ∈ callers, ∃ report, (q.polls calls rounds.flatten).stage i = .answered report

/-- A caller that finds the lock free can be polled until it is answered. -/
theorem exists_polls_settle (calls : Nat → Call) (hstage : q.stage i = .queued)
    (hholder : q.holder = none) :
    ∃ schedule report t, q.polls calls schedule = (q.enter i).settle i report t := by
  cases hcall : calls i with
  | pull =>
    obtain ⟨r, t, hnext⟩ := exists_next (q.reader, q.far)
    obtain ⟨k, hk⟩ := exists_polls_pull hstage hholder hcall hnext
    exact ⟨_, _, t, hk⟩
  | shutdown => exact ⟨_, _, _, polls_shutdown hstage hholder hcall⟩

theorem exists_polls_inOrder (hholder : q.holder = none) {callers : List Nat}
    (hnodup : callers.Nodup) (hqueued : ∀ i ∈ callers, q.stage i = .queued) : ∃ schedule,
      (q.polls calls schedule).order = q.order ++ callers ∧
        ∀ i ∈ callers, ∃ report, (q.polls calls schedule).stage i = .answered report := by
  induction callers generalizing q with
  | nil => exact ⟨[], (List.append_nil _).symm, List.forall_mem_nil _⟩
  | cons i callers ih =>
    obtain ⟨hi, hqueued⟩ := List.forall_mem_cons.1 hqueued
    obtain ⟨hnot, hnodup⟩ := List.nodup_cons.1 hnodup
    obtain ⟨first, report, t, hfirst⟩ := exists_polls_settle calls hi hholder
    have hqueued' (j : Nat) (hj : j ∈ callers) :
        ((q.enter i).settle i report t).stage j = .queued := by
      have hne : j ≠ i := fun hji => hnot (hji ▸ hj)
      exact (settle_stage_of_ne hne).trans (hqueued j hj)
    obtain ⟨rest, horder, hanswered⟩ := ih rfl hnodup hqueued'
    refine ⟨first ++ rest, ?_, ?_⟩
    · rw [polls_append, hfirst, horder]
      exact (List.append_cons q.order i callers).symm
    · rw [polls_append, hfirst]
      exact List.forall_mem_cons.2
        ⟨⟨report, stage_polls_of_answered settle_stage_self rest⟩, hanswered⟩

theorem Orderly.stage_poll_late (h : Orderly calls q) (hnone : q.connection? = none)
    (hstage : q.stage i = .queued) : (q.poll calls i).stage i = .answered (silent (calls i)) := by
  have hclosed := connection?_eq_none_iff.1 hnone
  have hholder : q.holder = none := by
    cases h.phase with
    | free hread hopen => simp [hopen] at hclosed
    | reading readers j horder hread hcall hstage hopen => simp [hopen] at hclosed
    | closed readers later j horder hread hcall hclosing hlater hclosed hholder => exact hholder
  cases hcall : calls i with
  | pull =>
    rw [poll_of_pull hstage hholder hcall, proceed_of_closed (q := q.enter i) hclosed]
    exact stage_become_self _
  | shutdown =>
    rw [poll_of_shutdown hstage hholder hcall, take_of_closed (q := q.enter i) hclosed]
    exact stage_become_self _

theorem Orderly.served (h : Orderly calls q) : Served calls q := by
  obtain ⟨r, t, hnext⟩ := exists_next (q.reader, q.far)
  constructor
  · exact fun i hstage hholder => order_poll hstage hholder
  · intro i hstage hholder hcall
    obtain ⟨k, hk⟩ := exists_polls_pull hstage hholder hcall hnext
    exact ⟨k, r, t, hnext, hk⟩
  · exact fun i hstage hholder hcall => SharedReader.polls_shutdown hstage hholder hcall
  · intro i hholder
    obtain ⟨k, hk⟩ := exists_polls_reading ((h.reading_iff i).2 hholder) hnext
    exact ⟨k, r, t, hnext, hk⟩
  · exact fun hnone i hstage => h.stage_poll_late hnone hstage
  · exact fun hholder callers hnodup hqueued => exists_polls_inOrder hholder hnodup hqueued
  · intro callers hholder rounds hrounds hlength i hi
    exact h.answered_of_rounds hholder hrounds ((load_le callers q).trans_lt hlength) hi

end Served
end HttpWire.SharedReader
