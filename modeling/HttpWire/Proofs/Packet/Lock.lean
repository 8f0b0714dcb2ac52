import HttpWire.Packet.Shared
import HttpWire.Proofs.Connection.Reads

/-! Callers that share a reader, polled in any order: who has had the lock, and what came of it. -/
namespace HttpWire

/-- Nothing but reads was done. -/
def Script.OnlyReads (s : Script) : Prop := ∀ e ∈ s.history, e.isRead = true

theorem Script.OnlyReads.of_extends {s t : Script} (h : s.OnlyReads)
    (ht : s.Extends Event.isRead t) : t.OnlyReads := by
  obtain ⟨events, hhistory, hevents⟩ := ht
  rw [OnlyReads, hhistory]
  exact List.forall_mem_append.2 ⟨h, hevents⟩

namespace SharedReader
open Script PacketStream

/-- The octets that a caller was handed. -/
def Stage.octets : Stage → Octets
  | .answered (.pulled result) => octetsOf result
  | _ => []

/-- What is told of a shutdown. That the far side has already gone is no failure. -/
def reportOf : Except IoError Unit → Except Error Unit
  | .error .notConnected => .ok ()
  | .error e => .error (.io e)
  | .ok () => .ok ()

/-- The answer to a call that finds the connection taken. -/
def silent : Call → Report
  | .pull => .pulled (.ok [])
  | .shutdown => .shutdown (.ok ())

theorem octets_silent (call : Call) : (Stage.answered (silent call)).octets = [] := by
  cases call <;> rfl

variable {calls : Nat → Call} {q q' : SharedReader Script} {readers later : List Nat} {i j : Nat}

section Steps

/-- A step changes how far caller `i` has come, and nobody else. -/
structure Touches (i : Nat) (q q' : SharedReader Script) : Prop where
  order_eq : q'.order = q.order
  stage_eq : ∀ j, j ≠ i → q'.stage j = q.stage j
  stage_ne : q'.stage i ≠ .queued

theorem touches_become {x : Stage} (hx : x ≠ .queued) (horder : q'.order = q.order)
    (hstage : q'.stage = q.stage) : Touches i q (q'.become i x) := by
  constructor
  · exact horder
  · intro j hne
    rw [← hstage]
    exact if_neg hne
  · exact (if_pos rfl).trans_ne hx

theorem Touches.stage_eq_of_mem {readers : List Nat} (h : Touches i q q') (hi : i ∉ readers) :
    ∀ j ∈ readers, q'.stage j = q.stage j :=
  fun j hj => h.stage_eq j fun hji => hi (hji ▸ hj)

/-- All that a pull under the lock can come to. -/
theorem proceed_cases (i : Nat) (q : SharedReader Script) :
    (∃ r t, q.reader.pull q.far = (.ready r, t) ∧
      q.proceed i = { q with far := t, holder := none }.become i (.answered (.pulled r))) ∨
    ∃ t, q.reader.pull q.far = (.again, t) ∧
      q.proceed i = { q with far := t, holder := some i }.become i .reading := by
  unfold proceed
  split
  · exact .inl ⟨_, _, ‹_›, rfl⟩
  · exact .inr ⟨_, ‹_›, rfl⟩
  · exact absurd ‹_› PacketReader.pull_ne_stalled

theorem touches_proceed (i : Nat) (q : SharedReader Script) : Touches i q (q.proceed i) := by
  obtain ⟨r, t, -, h⟩ | ⟨t, -, h⟩ := q.proceed_cases i
  · rw [h]
    exact touches_become (by simp) rfl rfl
  · rw [h]
    exact touches_become (by simp) rfl rfl

theorem proceed_of_closed (hclosed : q.reader.isOpen = false) (i : Nat) :
    q.proceed i = { q with holder := none }.become i (.answered (.pulled (.ok []))) := by
  have hpull : q.reader.pull q.far = (.ready (.ok []), q.far) := by
    rw [PacketReader.pull, hclosed]
    rfl
  rw [proceed, hpull]

theorem touches_take (i : Nat) (q : SharedReader Script) : Touches i q (q.take i) := by
  unfold take
  split
  · exact touches_become (by simp) rfl rfl
  · exact touches_become (by simp) rfl rfl

theorem take_of_closed (hclosed : q.reader.isOpen = false) (i : Nat) :
    q.take i = q.become i (.answered (.shutdown (.ok ()))) := by
  rw [take, hclosed]
  exact if_neg Bool.false_ne_true

theorem take_eq (i : Nat) (q : SharedReader Script) : (q.take i).far = q.far ∧
    (q.take i).reader = { q.reader with isOpen := false } := by
  unfold take
  split
  · exact ⟨rfl, rfl⟩
  · rename_i hopen
    refine ⟨rfl, ?_⟩
    show q.reader = _
    rw [← (by simpa using hopen : q.reader.isOpen = false)]

theorem finish_eq (i : Nat) (q : SharedReader Script) : q.finish i =
    { q with far := q.far.shutdown.2.release }.become i
      (.answered (.shutdown (reportOf q.far.shutdown.1))) := by
  have hshutdown (r : PacketReader) (s : Script) : ({ r with isOpen := true }.shutdown s) =
      (reportOf s.shutdown.1, { r with isOpen := false }, s.shutdown.2.release) := by
    obtain ⟨reads, writes, flushError, _ | e, held, record⟩ := s
    · rfl
    · cases e <;> rfl
  rw [finish, hshutdown]

theorem touches_finish (i : Nat) (q : SharedReader Script) : Touches i q (q.finish i) := by
  rw [finish_eq]
  exact touches_become (by simp) rfl rfl

/-- All that a poll can come to. -/
inductive Turns (calls : Nat → Call) (i : Nat) (q : SharedReader Script) :
    SharedReader Script → Prop
  /-- The caller waits for the lock, or was answered before. -/
  | rest : Turns calls i q q
  | pull (hstage : q.stage i = .queued) (hholder : q.holder = none) (hcall : calls i = .pull) :
    Turns calls i q ((q.enter i).proceed i)
  | take (hstage : q.stage i = .queued) (hholder : q.holder = none)
    (hcall : calls i = .shutdown) : Turns calls i q ((q.enter i).take i)
  | proceed (hstage : q.stage i = .reading) : Turns calls i q (q.proceed i)
  | finish (hstage : q.stage i = .closing) : Turns calls i q (q.finish i)

theorem turns_of_poll (h : q.poll calls i = q') : Turns calls i q q' := by
  unfold poll at h
  split at h
  · rename_i hstage
    split at h
    · exact h ▸ .rest
    · rename_i hholder
      have hholder : q.holder = none := by simpa using hholder
      split at h
      · exact h ▸ .pull hstage hholder ‹_›
      · exact h ▸ .take hstage hholder ‹_›
  · exact h ▸ .proceed ‹_›
  · exact h ▸ .finish ‹_›
  · exact h ▸ .rest

end Steps

/-- These callers were to pull, and each was given what one read has come to, in order. -/
structure Answered (calls : Nat → Call) (readers : List Nat) (q : SharedReader Script) : Prop where
  calls_eq : ∀ j ∈ readers, calls j = .pull
  map_stage : readers.map q.stage = q.far.settled.map fun r => .answered (.pulled r)

namespace Answered

theorem exists_stage_eq (h : Answered calls readers q) (hj : j ∈ readers) :
    ∃ r ∈ q.far.settled, q.stage j = .answered (.pulled r) := by
  have hstage := List.mem_map_of_mem (f := q.stage) hj
  rw [h.map_stage] at hstage
  obtain ⟨r, hr, hstage⟩ := List.mem_map.1 hstage
  exact ⟨r, hr, hstage.symm⟩

theorem not_mem (h : Answered calls readers q) (hi : ∀ r, q.stage i ≠ .answered (.pulled r)) :
    i ∉ readers := by
  intro hmem
  obtain ⟨r, -, hr⟩ := h.exists_stage_eq hmem
  exact hi r hr

theorem flatMap_octets (h : Answered calls readers q) :
    readers.flatMap (fun j => (q.stage j).octets) = q.far.received := by
  have hmap : readers.flatMap (fun j => (q.stage j).octets) =
      (readers.map q.stage).flatMap Stage.octets := (List.flatMap_map _ _ _).symm
  rw [hmap, h.map_stage, List.flatMap_map, received_eq_flatMap_settled]
  rfl

/-- Other callers have gone on. -/
theorem of_stage_eq (h : Answered calls readers q)
    (hstage : ∀ j ∈ readers, q'.stage j = q.stage j)
    (hsettled : q'.far.settled = q.far.settled) : Answered calls readers q' := by
  refine ⟨h.calls_eq, ?_⟩
  rw [List.map_congr_left hstage, h.map_stage, hsettled]

/-- The next caller was given what the next read has come to. -/
theorem snoc {r : Except Error Octets} (h : Answered calls readers q)
    (hstage : ∀ j ∈ readers, q'.stage j = q.stage j) (hcall : calls i = .pull)
    (hi : q'.stage i = .answered (.pulled r))
    (hsettled : q'.far.settled = q.far.settled ++ [r]) : Answered calls (readers ++ [i]) q' := by
  constructor
  · exact List.forall_mem_append.2 ⟨h.calls_eq, List.forall_mem_singleton.2 hcall⟩
  · rw [List.map_append, List.map_congr_left hstage, h.map_stage, hsettled, List.map_append,
      List.map_singleton, List.map_singleton, hi]

end Answered

/-- How far the caller has come that took the connection, and what was done to it. -/
inductive Closing (i : Nat) (q : SharedReader Script) : Prop
  | taken (hstage : q.stage i = .closing) (hreads : q.far.OnlyReads)
  | shutDown (s : Script)
      (hstage : q.stage i = .answered (.shutdown (reportOf s.shutdown.1))) (hreads : s.OnlyReads)
      (hfar : q.far = s.shutdown.2.release)

theorem Closing.of_eq (h : Closing i q) (hstage : q'.stage i = q.stage i) (hfar : q'.far = q.far) :
    Closing i q' := by
  cases h with
  | taken h hreads => exact .taken (hstage.trans h) (hfar ▸ hreads)
  | shutDown s h hreads hfar' => exact .shutDown s (hstage.trans h) hreads (hfar.trans hfar')

/-- Those who have had the lock, in order. -/
inductive Phase (calls : Nat → Call) (q : SharedReader Script) : Prop
  | free (hread : Answered calls q.order q) (hopen : q.reader.isOpen = true)
      (hholder : q.holder = none) (hreads : q.far.OnlyReads)
  | reading (readers : List Nat) (i : Nat) (horder : q.order = readers ++ [i])
      (hread : Answered calls readers q) (hcall : calls i = .pull) (hstage : q.stage i = .reading)
      (hopen : q.reader.isOpen = true) (hholder : q.holder = some i) (hreads : q.far.OnlyReads)
  | closed (readers later : List Nat) (i : Nat) (horder : q.order = readers ++ i :: later)
      (hread : Answered calls readers q) (hcall : calls i = .shutdown) (hclosing : Closing i q)
      (hlater : ∀ j ∈ later, q.stage j = .answered (silent (calls j)))
      (hclosed : q.reader.isOpen = false) (hholder : q.holder = none)

/-- What every poll preserves. -/
structure Orderly (calls : Nat → Call) (q : SharedReader Script) : Prop where
  nodup : q.order.Nodup
  mem_order_iff : ∀ i, i ∈ q.order ↔ q.stage i ≠ .queued
  phase : Phase calls q

theorem orderly_new (calls : Nat → Call) (packetSize : Nat) {s : Script} (hs : s.history = []) :
    Orderly calls (new packetSize s) := by
  constructor
  · exact List.nodup_nil
  · exact fun i => ⟨fun hi => absurd hi List.not_mem_nil, fun hi => absurd rfl hi⟩
  · refine .free ⟨List.forall_mem_nil _, ?_⟩ rfl rfl ?_
    · rw [show (new packetSize s).far = s from rfl, settled, hs]
      rfl
    · rw [OnlyReads, show (new packetSize s).far = s from rfl, hs]
      exact List.forall_mem_nil _

namespace Orderly

/-- Only the one that has the lock is reading. -/
theorem phase_of_reading (h : Orderly calls q) (hi : q.stage i = .reading) :
    ∃ readers, q.order = readers ++ [i] ∧ Answered calls readers q ∧ calls i = .pull ∧
      q.reader.isOpen = true ∧ q.holder = some i ∧ q.far.OnlyReads := by
  have hmem : i ∈ q.order := (h.mem_order_iff i).2 (by simp [hi])
  have hne (r : Except Error Octets) : q.stage i ≠ .answered (.pulled r) := by simp [hi]
  cases h.phase with
  | free hread hopen hholder hreads => exact absurd hmem (hread.not_mem hne)
  | reading readers j horder hread hcall hstage hopen hholder hreads =>
    rw [horder, List.mem_append, List.mem_singleton] at hmem
    obtain rfl := hmem.resolve_left (hread.not_mem hne)
    exact ⟨readers, horder, hread, hcall, hopen, hholder, hreads⟩
  | closed readers later j horder hread hcall hclosing hlater hclosed hholder =>
    rw [horder, List.mem_append, List.mem_cons] at hmem
    obtain rfl | hmem := hmem.resolve_left (hread.not_mem hne)
    · cases hclosing <;> simp_all
    · simp [hlater i hmem] at hi

/-- Only the one that has taken the connection is about to shut it down. -/
theorem phase_of_closing (h : Orderly calls q) (hi : q.stage i = .closing) :
    ∃ readers later, q.order = readers ++ i :: later ∧ Answered calls readers q ∧
      calls i = .shutdown ∧ q.far.OnlyReads ∧
      (∀ j ∈ later, q.stage j = .answered (silent (calls j))) ∧ q.reader.isOpen = false ∧
      q.holder = none := by
  have hmem : i ∈ q.order := (h.mem_order_iff i).2 (by simp [hi])
  have hne (r : Except Error Octets) : q.stage i ≠ .answered (.pulled r) := by simp [hi]
  cases h.phase with
  | free hread hopen hholder hreads => exact absurd hmem (hread.not_mem hne)
  | reading readers j horder hread hcall hstage hopen hholder hreads =>
    rw [horder, List.mem_append, List.mem_singleton] at hmem
    obtain rfl := hmem.resolve_left (hread.not_mem hne)
    simp [hi] at hstage
  | closed readers later j horder hread hcall hclosing hlater hclosed hholder =>
    rw [horder, List.mem_append, List.mem_cons] at hmem
    obtain rfl | hmem := hmem.resolve_left (hread.not_mem hne)
    · cases hclosing with
      | taken hstage hreads =>
        exact ⟨readers, later, horder, hread, hcall, hreads, hlater, hclosed, hholder⟩
      | shutDown s hstage hreads hfar => simp [hi] at hstage
    · simp [hlater i hmem] at hi

theorem reading_iff (h : Orderly calls q) (i : Nat) :
    q.stage i = .reading ↔ q.holder = some i := by
  constructor
  · intro hi
    obtain ⟨-, -, -, -, -, hholder, -⟩ := h.phase_of_reading hi
    exact hholder
  · intro hi
    cases h.phase with
    | free hread hopen hholder hreads => simp [hi] at hholder
    | reading readers j horder hread hcall hstage hopen hholder hreads =>
      obtain rfl := Option.some.inj (hi.symm.trans hholder)
      exact hstage
    | closed readers later j horder hread hcall hclosing hlater hclosed hholder =>
      simp [hi] at hholder

theorem of_touches (h : Orderly calls q) (hi : i ∈ q.order) (ht : Touches i q q')
    (hphase : Phase calls q') : Orderly calls q' := by
  constructor
  · rw [ht.order_eq]
    exact h.nodup
  · intro j
    rw [ht.order_eq]
    by_cases hji : j = i
    · subst hji
      exact ⟨fun _ => ht.stage_ne, fun _ => hi⟩
    · rw [ht.stage_eq j hji]
      exact h.mem_order_iff j
  · exact hphase

theorem not_mem_of_queued (h : Orderly calls q) (hi : q.stage i = .queued) : i ∉ q.order :=
  fun hmem => (h.mem_order_iff i).1 hmem hi

theorem of_enter (h : Orderly calls q) (hi : q.stage i = .queued) (ht : Touches i (q.enter i) q')
    (hphase : Phase calls q') : Orderly calls q' := by
  have horder : q'.order = q.order ++ [i] := ht.order_eq
  constructor
  · rw [horder]
    exact List.nodup_append.2 ⟨h.nodup, List.nodup_singleton i, fun a ha b hb hab =>
      h.not_mem_of_queued hi (List.mem_singleton.1 hb ▸ hab ▸ ha)⟩
  · intro j
    rw [horder, List.mem_append, List.mem_singleton]
    by_cases hji : j = i
    · subst hji
      exact ⟨fun _ => ht.stage_ne, fun _ => .inr rfl⟩
    · rw [ht.stage_eq j hji, or_iff_left hji]
      exact h.mem_order_iff j
  · exact hphase

end Orderly

/-- The caller that has the lock goes on with its read. -/
theorem phase_proceed (hread : Answered calls readers q) (hi : i ∉ readers)
    (hcall : calls i = .pull) (horder : q.order = readers ++ [i])
    (hopen : q.reader.isOpen = true) (hreads : q.far.OnlyReads) : Phase calls (q.proceed i) := by
  obtain ⟨r, t, hpull, hq⟩ | ⟨t, hpull, hq⟩ := q.proceed_cases i
  all_goals
    have hsettled := PacketReader.settled_pull hopen hpull
    have honly := hreads.of_extends (PacketReader.extends_pull hpull)
    have hsame := (q.touches_proceed i).stage_eq_of_mem hi
    rw [hq] at hsame ⊢
  · refine .free ?_ hopen rfl honly
    show Answered calls q.order _
    rw [horder]
    exact hread.snoc hsame hcall (if_pos rfl) hsettled
  · refine .reading readers i horder (hread.of_stage_eq hsame ?_) hcall (if_pos rfl) hopen rfl honly
    exact hsettled.trans (List.append_nil _)

/-- A caller who finds the connection taken is answered at once. -/
theorem phase_late {k : Nat} (horder : q.order = readers ++ k :: later)
    (hread : Answered calls readers q) (hcall : calls k = .shutdown) (hclosing : Closing k q)
    (hlater : ∀ j ∈ later, q.stage j = .answered (silent (calls j))) (hi : i ∉ q.order)
    (ht : Touches i (q.enter i) q') (hstage : q'.stage i = .answered (silent (calls i)))
    (hfar : q'.far = q.far) (hclosed : q'.reader.isOpen = false) (hholder : q'.holder = none) :
    Phase calls q' := by
  have hsame (j : Nat) (hj : j ∈ q.order) : q'.stage j = q.stage j :=
    ht.stage_eq j fun hji => hi (hji ▸ hj)
  rw [horder] at hsame
  refine .closed readers (later ++ [i]) k ?_ (hread.of_stage_eq ?_ (by rw [hfar])) hcall
    (hclosing.of_eq (hsame k (by simp)) hfar) ?_ hclosed hholder
  · rw [ht.order_eq, show (q.enter i).order = q.order ++ [i] from rfl, horder, List.append_assoc,
      List.cons_append]
  · exact fun j hj => hsame j (by simp [hj])
  · refine List.forall_mem_append.2 ⟨fun j hj => ?_, List.forall_mem_singleton.2 hstage⟩
    exact (hsame j (by simp [hj])).trans (hlater j hj)

namespace Orderly

theorem enter_pull (h : Orderly calls q) (hi : q.stage i = .queued) (hholder : q.holder = none)
    (hcall : calls i = .pull) : Orderly calls ((q.enter i).proceed i) := by
  have hnot := h.not_mem_of_queued hi
  refine h.of_enter hi (touches_proceed i _) ?_
  cases h.phase with
  | free hread hopen hholder hreads =>
    exact phase_proceed (q := q.enter i) ⟨hread.calls_eq, hread.map_stage⟩ hnot hcall rfl hopen
      hreads
  | reading readers j horder hread hcall' hstage hopen hholder' hreads => simp [hholder] at hholder'
  | closed readers later j horder hread hcall' hclosing hlater hclosed hholder' =>
    have ht := touches_proceed i (q.enter i)
    rw [proceed_of_closed (q := q.enter i) hclosed] at ht ⊢
    exact phase_late horder hread hcall' hclosing hlater hnot ht (by rw [hcall]; exact if_pos rfl)
      rfl hclosed rfl

theorem enter_shutdown (h : Orderly calls q) (hi : q.stage i = .queued)
    (hholder : q.holder = none) (hcall : calls i = .shutdown) :
    Orderly calls ((q.enter i).take i) := by
  have hnot := h.not_mem_of_queued hi
  have ht := touches_take i (q.enter i)
  refine h.of_enter hi ht ?_
  cases h.phase with
  | free hread hopen hholder hreads =>
    rw [take, if_pos (show (q.enter i).reader.isOpen = true from hopen)] at ht ⊢
    exact .closed q.order [] i rfl (hread.of_stage_eq (ht.stage_eq_of_mem hnot) rfl) hcall
      (.taken (if_pos rfl) hreads) (List.forall_mem_nil _) rfl hholder
  | reading readers j horder hread hcall' hstage hopen hholder' hreads => simp [hholder] at hholder'
  | closed readers later j horder hread hcall' hclosing hlater hclosed hholder' =>
    rw [take_of_closed (q := q.enter i) hclosed] at ht ⊢
    exact phase_late horder hread hcall' hclosing hlater hnot ht (by rw [hcall]; exact if_pos rfl)
      rfl hclosed hholder

theorem proceed (h : Orderly calls q) (hi : q.stage i = .reading) :
    Orderly calls (q.proceed i) := by
  obtain ⟨readers, horder, hread, hcall, hopen, hholder, hreads⟩ := h.phase_of_reading hi
  have hmem : i ∈ q.order := (h.mem_order_iff i).2 (by simp [hi])
  exact h.of_touches hmem (touches_proceed i q)
    (phase_proceed hread (hread.not_mem (by simp [hi])) hcall horder hopen hreads)

theorem finish (h : Orderly calls q) (hi : q.stage i = .closing) : Orderly calls (q.finish i) := by
  obtain ⟨readers, later, horder, hread, hcall, hreads, hlater, hclosed, hholder⟩ :=
    h.phase_of_closing hi
  have hmem : i ∈ q.order := (h.mem_order_iff i).2 (by simp [hi])
  have hnot : i ∉ readers := hread.not_mem (by simp [hi])
  have hnot' : i ∉ later := fun hi' => by simp [hlater i hi'] at hi
  have hq := q.finish_eq i
  have ht := q.touches_finish i
  refine h.of_touches hmem ht ?_
  have hlater' (j : Nat) (hj : j ∈ later) : (q.finish i).stage j = .answered (silent (calls j)) :=
    (ht.stage_eq_of_mem hnot' j hj).trans (hlater j hj)
  have hread' : Answered calls readers (q.finish i) := by
    refine hread.of_stage_eq (ht.stage_eq_of_mem hnot) ?_
    rw [hq]
    exact settled_shutdown_release q.far
  rw [hq] at hlater' hread' ⊢
  exact .closed readers later i horder hread' hcall
    (.shutDown q.far (if_pos rfl) hreads rfl) hlater' hclosed hholder

theorem poll (h : Orderly calls q) (i : Nat) : Orderly calls (q.poll calls i) := by
  generalize hq : q.poll calls i = q'
  cases turns_of_poll hq with
  | rest => exact h
  | pull hstage hholder hcall => exact h.enter_pull hstage hholder hcall
  | take hstage hholder hcall => exact h.enter_shutdown hstage hholder hcall
  | proceed hstage => exact h.proceed hstage
  | finish hstage => exact h.finish hstage

theorem polls (h : Orderly calls q) (schedule : List Nat) :
    Orderly calls (q.polls calls schedule) := by
  induction schedule generalizing q with
  | nil => exact h
  | cons i schedule ih => exact ih (h.poll i)

end Orderly

end SharedReader
end HttpWire
