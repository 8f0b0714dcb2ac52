import HttpWire.Proofs.Packet.Serving

/-! What callers that share a reader are given in all, that they are served, and what they do to the
connection, whatever the order in which they are polled. -/
namespace HttpWire

/-- One that was given up has seen more than reads. -/
theorem Script.not_onlyReads_shutdown_release (s : Script) :
    ¬ s.shutdown.2.release.OnlyReads := by
  intro h
  have hrelease := h .release (by rw [history_shutdown_release]; simp)
  exact Bool.noConfusion hrelease

namespace SharedReader
open Script PacketStream
variable {calls : Nat → Call} {q : SharedReader Script}

section Far
variable {items : List ReadItem}

theorem proceed_eq (i : Nat) (q : SharedReader Script) : (q.proceed i).reader = q.reader ∧
    ∃ p, q.reader.pull q.far = (p, (q.proceed i).far) := by
  obtain ⟨r, t, hpull, h⟩ | ⟨t, hpull, h⟩ := q.proceed_cases i
  · rw [h]
    exact ⟨rfl, _, hpull⟩
  · rw [h]
    exact ⟨rfl, _, hpull⟩

/-- What one poll can do to the connection. -/
theorem far_poll_cases (calls : Nat → Call) (i : Nat) (q : SharedReader Script) :
    (q.poll calls i).far = q.far ∨ (∃ p, q.reader.pull q.far = (p, (q.poll calls i).far)) ∨
      (q.poll calls i).far = q.far.shutdown.2.release := by
  generalize hq : q.poll calls i = q'
  cases turns_of_poll hq with
  | rest => exact .inl rfl
  | pull => exact .inr (.inl (proceed_eq i (q.enter i)).2)
  | take => exact .inl (take_eq i (q.enter i)).1
  | proceed => exact .inr (.inl (proceed_eq i q).2)
  | finish => exact .inr (.inr rfl)

theorem reader_poll (calls : Nat → Call) (i : Nat) (q : SharedReader Script) :
    (q.poll calls i).reader = q.reader ∨
      (q.poll calls i).reader = { q.reader with isOpen := false } := by
  generalize hq : q.poll calls i = q'
  cases turns_of_poll hq with
  | rest => exact .inl rfl
  | pull => exact .inl (proceed_eq i (q.enter i)).1
  | take => exact .inr (take_eq i (q.enter i)).2
  | proceed => exact .inl (proceed_eq i q).1
  | finish => exact .inl rfl

theorem packetSize_poll (calls : Nat → Call) (i : Nat) (q : SharedReader Script) :
    (q.poll calls i).reader.packetSize = q.reader.packetSize := by
  obtain h | h := q.reader_poll calls i <;> rw [h]

theorem isOpen_poll (i : Nat) (hclosed : q.reader.isOpen = false) :
    (q.poll calls i).reader.isOpen = false := by
  obtain h | h := q.reader_poll calls i
  · rw [h, hclosed]
  · rw [h]

theorem readThrough_poll (hn : 0 < q.reader.packetSize)
    (h : q.far.ReadThrough q.reader.packetSize items) (i : Nat) :
    (q.poll calls i).far.ReadThrough (q.poll calls i).reader.packetSize items := by
  rw [packetSize_poll]
  obtain hfar | ⟨p, hpull⟩ | hfar := q.far_poll_cases calls i
  · rw [hfar]
    exact h
  · exact PacketReader.readThrough_pull hn h hpull
  · rw [hfar]
    refine h.of_history q.far.history_shutdown_release ?_ rfl rfl
    simp [Event.isRead]

theorem readThrough_polls (schedule : List Nat) (hn : 0 < q.reader.packetSize)
    (h : q.far.ReadThrough q.reader.packetSize items) :
    (q.polls calls schedule).far.ReadThrough q.reader.packetSize items := by
  induction schedule generalizing q with
  | nil => exact h
  | cons i schedule ih =>
    rw [← q.packetSize_poll calls i] at hn ⊢
    exact ih hn (readThrough_poll (by rwa [packetSize_poll] at hn) h i)

/-- What is done to a connection that was taken: nothing, or that it is shut down and given up after
nothing but reads. -/
def Seals (s t : Script) : Prop := t = s ∨ s.OnlyReads ∧ t = s.shutdown.2.release

theorem Seals.trans {s t u : Script} (hst : Seals s t) (htu : Seals t u) : Seals s u := by
  obtain rfl | ⟨hs, rfl⟩ := hst
  · exact htu
  · obtain rfl | ⟨ht, -⟩ := htu
    · exact .inr ⟨hs, rfl⟩
    · exact absurd ht s.not_onlyReads_shutdown_release

theorem Orderly.seals_poll (h : Orderly calls q) (hclosed : q.reader.isOpen = false) (i : Nat) :
    Seals q.far (q.poll calls i).far := by
  generalize hq : q.poll calls i = q'
  cases turns_of_poll hq with
  | rest => exact .inl rfl
  | pull =>
    rw [proceed_of_closed (q := q.enter i) hclosed]
    exact .inl rfl
  | take => exact .inl (take_eq i (q.enter i)).1
  | proceed =>
    rw [proceed_of_closed hclosed]
    exact .inl rfl
  | finish hstage =>
    obtain ⟨-, -, -, -, -, hreads, -⟩ := h.phase_of_closing hstage
    exact .inr ⟨hreads, rfl⟩

/-- Whoever comes after the connection was taken does nothing to it. -/
theorem Orderly.seals_polls (h : Orderly calls q) (hclosed : q.reader.isOpen = false)
    (schedule : List Nat) : Seals q.far (q.polls calls schedule).far := by
  induction schedule generalizing q with
  | nil => exact .inl rfl
  | cons i schedule ih =>
    exact (h.seals_poll hclosed i).trans (ih (h.poll i) (isOpen_poll i hclosed))

end Far

section Interruptions

/-- The same callers over the script without its interruptions. -/
def uninterrupted (q : SharedReader Script) : SharedReader Script :=
  { q with far := q.far.uninterrupted }

theorem proceed_uninterrupted (i : Nat) (q : SharedReader Script) :
    q.uninterrupted.proceed i = (q.proceed i).uninterrupted := by
  simp only [proceed, uninterrupted, PacketReader.pull_uninterrupted]
  obtain ⟨p, t⟩ := q.reader.pull q.far
  cases p <;> rfl

theorem take_uninterrupted (i : Nat) (q : SharedReader Script) :
    q.uninterrupted.take i = (q.take i).uninterrupted := by
  cases hopen : q.reader.isOpen with
  | true =>
    simp only [take, uninterrupted, hopen, if_true]
    rfl
  | false =>
    simp only [take, uninterrupted, hopen, Bool.false_eq_true, if_false]
    rfl

theorem finish_uninterrupted (i : Nat) (q : SharedReader Script) :
    q.uninterrupted.finish i = (q.finish i).uninterrupted := by
  simp only [finish, uninterrupted, PacketReader.shutdown_uninterrupted]
  rfl

theorem poll_uninterrupted (calls : Nat → Call) (i : Nat) (q : SharedReader Script) :
    q.uninterrupted.poll calls i = (q.poll calls i).uninterrupted := by
  unfold poll
  rw [show q.uninterrupted.stage = q.stage from rfl,
    show q.uninterrupted.holder = q.holder from rfl]
  split
  · split
    · rfl
    · split
      · exact proceed_uninterrupted i (q.enter i)
      · exact take_uninterrupted i (q.enter i)
  · exact proceed_uninterrupted i q
  · exact finish_uninterrupted i q
  · rfl

/-- The callers cannot tell whether reads were interrupted. -/
theorem polls_uninterrupted (calls : Nat → Call) (schedule : List Nat) (q : SharedReader Script) :
    q.uninterrupted.polls calls schedule = (q.polls calls schedule).uninterrupted := by
  induction schedule generalizing q with
  | nil => rfl
  | cons i schedule ih => rw [polls, poll_uninterrupted, ih, polls]

end Interruptions

/-- What holds of callers that share a reader over these items, whenever the polls stop. -/
structure Serialized (calls : Nat → Call) (packetSize : Nat) (items : List ReadItem)
    (q : SharedReader Script) : Prop where
  /-- Only the caller that has the lock has a read outstanding. -/
  reading_iff : ∀ i, q.stage i = .reading ↔ q.holder = some i
  nodup : q.order.Nodup
  mem_order_iff : ∀ i, i ∈ q.order ↔ q.stage i ≠ .queued
  /-- What the reads have come to was told to one caller each, in the order of the lock. Whoever is
  behind them was handed nothing. -/
  answered : ∃ readers rest, q.order = readers ++ rest ∧ Answered calls readers q ∧
    ∀ j ∈ rest, (q.stage j).octets = []
  octets_eq : q.order.flatMap (fun i => (q.stage i).octets) = q.far.received
  received_append_unread : q.far.received ++ q.far.unread = items.flatMap ReadItem.octets
  length_le : ∀ i, (q.stage i).octets.length ≤ max 1 packetSize
  /-- An empty packet comes from a read at the end of the input, or after the connection was
  taken. -/
  ended_of_empty : ∀ i, q.stage i = .answered (.pulled (.ok [])) →
    (.read (.ok []) ∈ q.far.history ∧ (.data [] ∉ items → q.far.IsSpent)) ∨
      ∃ before k after, q.order = before ++ k :: after ∧ calls k = .shutdown ∧ i ∈ after
  connection?_of_pulls : (∀ i ∈ q.order, calls i = .pull) →
    q.connection? = some q.far ∧ q.far.OnlyReads
  /-- The first to shut down takes the connection, and whoever comes later is answered as if there
  was none. -/
  closing_of_shutdown : (∃ i ∈ q.order, calls i = .shutdown) → q.connection? = none ∧
    ∃ before i after, q.order = before ++ i :: after ∧ (∀ j ∈ before, calls j = .pull) ∧
      calls i = .shutdown ∧ Closing i q ∧
      ∀ j ∈ after, q.stage j = .answered (silent (calls j))

namespace Orderly

/-- The callers that were answered by a read, and those that were handed nothing. -/
theorem exists_readers (h : Orderly calls q) : ∃ readers rest, q.order = readers ++ rest ∧
    Answered calls readers q ∧ (∀ j ∈ rest, (q.stage j).octets = []) ∧
    ∀ j ∈ rest, q.stage j = .answered (.pulled (.ok [])) →
      ∃ before k after, q.order = before ++ k :: after ∧ calls k = .shutdown ∧ j ∈ after := by
  cases h.phase with
  | free hread hopen hholder hreads =>
    exact ⟨q.order, [], (List.append_nil _).symm, hread, List.forall_mem_nil _,
      List.forall_mem_nil _⟩
  | reading readers j horder hread hcall hstage hopen hholder hreads =>
    refine ⟨readers, [j], horder, hread, ?_, ?_⟩
    · rw [List.forall_mem_singleton, hstage]
      rfl
    · rw [List.forall_mem_singleton, hstage]
      exact fun hj => Stage.noConfusion hj
  | closed readers later j horder hread hcall hclosing hlater hclosed hholder =>
    refine ⟨readers, j :: later, horder, hread, List.forall_mem_cons.2 ⟨?_, ?_⟩,
      List.forall_mem_cons.2 ⟨?_, ?_⟩⟩
    · cases hclosing with
      | taken hstage hreads => rw [hstage]; rfl
      | shutDown s hstage hreads hfar => rw [hstage]; rfl
    · intro k hk
      rw [hlater k hk]
      exact octets_silent (calls k)
    · cases hclosing <;> simp_all
    · exact fun k hk _ => ⟨readers, j, later, horder, hcall, hk⟩

theorem connection?_of_pulls (h : Orderly calls q) (hcalls : ∀ i ∈ q.order, calls i = .pull) :
    q.connection? = some q.far ∧ q.far.OnlyReads := by
  cases h.phase with
  | free hread hopen hholder hreads => exact ⟨if_pos hopen, hreads⟩
  | reading readers j horder hread hcall hstage hopen hholder hreads =>
    exact ⟨if_pos hopen, hreads⟩
  | closed readers later j horder hread hcall hclosing hlater hclosed hholder =>
    have hpull := hcalls j (by simp [horder])
    simp [hcall] at hpull

theorem closing_of_shutdown (h : Orderly calls q) (hcalls : ∃ i ∈ q.order, calls i = .shutdown) :
    q.connection? = none ∧
      ∃ before i after, q.order = before ++ i :: after ∧ (∀ j ∈ before, calls j = .pull) ∧
        calls i = .shutdown ∧ Closing i q ∧
        ∀ j ∈ after, q.stage j = .answered (silent (calls j)) := by
  obtain ⟨k, hk, hcall⟩ := hcalls
  cases h.phase with
  | free hread hopen hholder hreads =>
    have hpull := hread.calls_eq k hk
    simp [hcall] at hpull
  | reading readers j horder hread hcall' hstage hopen hholder hreads =>
    have hpull : calls k = .pull := by
      rw [horder, List.mem_append, List.mem_singleton] at hk
      obtain hk | rfl := hk
      · exact hread.calls_eq k hk
      · exact hcall'
    simp [hcall] at hpull
  | closed readers later j horder hread hcall hclosing hlater hclosed hholder =>
    exact ⟨connection?_eq_none_iff.2 hclosed, readers, j, later, horder, hread.calls_eq, hcall,
      hclosing, hlater⟩

theorem serialized {packetSize : Nat} {items : List ReadItem} (h : Orderly calls q)
    (hfar : q.far.ReadThrough (max 1 packetSize) items) : Serialized calls packetSize items q := by
  obtain ⟨readers, rest, horder, hread, hoctets, hempty⟩ := h.exists_readers
  have hcases (i : Nat) : i ∈ readers ∨ i ∈ rest ∨ q.stage i = .queued := by
    rw [← or_assoc, ← List.mem_append, ← horder, h.mem_order_iff]
    exact (Classical.em _).symm
  constructor
  · exact h.reading_iff
  · exact h.nodup
  · exact h.mem_order_iff
  · exact ⟨readers, rest, horder, hread, hoctets⟩
  · rw [horder, List.flatMap_append, hread.flatMap_octets, List.flatMap_eq_nil_iff.2 hoctets,
      List.append_nil]
  · exact hfar.received_append_unread
  · intro i
    obtain hi | hi | hi := hcases i
    · obtain ⟨r, hr, hstage⟩ := hread.exists_stage_eq hi
      rw [hstage]
      cases r with
      | ok b => exact hfar.length_le b hr
      | error e => exact Nat.zero_le _
    · rw [hoctets i hi]
      exact Nat.zero_le _
    · rw [hi]
      exact Nat.zero_le _
  · intro i hstage
    obtain hi | hi | hi := hcases i
    · obtain ⟨r, hr, hstage'⟩ := hread.exists_stage_eq hi
      obtain rfl : r = .ok [] := by simpa using hstage'.symm.trans hstage
      exact .inl ⟨mem_history_of_settled hr, fun hitems => hfar.spent hitems hr⟩
    · exact .inr (hempty i hi hstage)
    · simp [hstage] at hi
  · exact h.connection?_of_pulls
  · exact h.closing_of_shutdown

end Orderly

/-- Any number of callers of one reader, over any script, polled in any order. No octet is lost,
comes twice or out of order. Whoever finds the lock free is given the next packet or shuts the
connection down, and none of those who are polled again and again is left without an answer. Once the
connection is taken, all that is still done to it is that it is shut down. Interruptions change
nothing. -/
theorem polls_serialized (calls : Nat → Call) (packetSize : Nat) (items : List ReadItem)
    (writes : List WriteItem) (flushError shutdownError : Option IoError)
    (schedule later : List Nat) :
    let start := new packetSize (Script.new items writes flushError shutdownError)
    let q := start.polls calls schedule
    Serialized calls packetSize items q ∧ Served calls q ∧
      (q.connection? = none → Seals q.far (q.polls calls later).far) ∧
      (new packetSize (Script.new (items.filter fun item => !item.isInterruption) writes flushError
        shutdownError)).polls calls schedule = q.uninterrupted := by
  intro start q
  have hsize : 0 < max 1 packetSize := Nat.lt_of_lt_of_le Nat.zero_lt_one (Nat.le_max_left _ _)
  have horderly : Orderly calls q := (orderly_new calls packetSize rfl).polls schedule
  have hfar : q.far.ReadThrough (max 1 packetSize) items :=
    readThrough_polls (q := start) schedule hsize (.new _ items writes _ _)
  refine ⟨horderly.serialized hfar, horderly.served, fun hnone => ?_, ?_⟩
  · exact horderly.seals_polls (connection?_eq_none_iff.1 hnone) later
  · exact polls_uninterrupted calls schedule start

end SharedReader
end HttpWire
