import HttpWire.Proofs.Connection.Events
import HttpWire.Proofs.Exchange.Quiet
import HttpWire.Proofs.Packet.Pulls

/-! What the reads of a scripted connection come to, one by one, and that interruptions make no
difference to whoever reads packets. -/
namespace HttpWire
namespace Script
variable {s t : Script} {n : Nat}

/-- What a read has come to, unless it was interrupted. -/
def Event.settled? : Event → Option (Except Error Octets)
  | .read (.ok b) => some (.ok b)
  | .read (.error .interrupted) => none
  | .read (.error e) => some (.error (.io e))
  | _ => none

/-- What all reads that were not interrupted have come to, in order. -/
def settled (s : Script) : List (Except Error Octets) := s.history.filterMap Event.settled?

def octetsOf : Except Error Octets → Octets
  | .ok b => b
  | .error _ => []

theorem received_eq_flatMap_settled (s : Script) : s.received = s.settled.flatMap octetsOf := by
  have hevent (e : Event) : e.received = e.settled?.toList.flatMap octetsOf := by
    cases e with
    | read result =>
      cases result with
      | ok b => exact (List.append_nil b).symm
      | error e => cases e <;> rfl
    | _ => rfl
  rw [received, settled, List.filterMap_eq_flatMap_toList, List.flatMap_assoc]
  exact List.flatMap_congr fun e _ => hevent e

theorem settled_of_history {e : Event} (h : t.history = s.history ++ [e]) :
    t.settled = s.settled ++ e.settled?.toList := by
  have hlast : [e].filterMap Event.settled? = e.settled?.toList := by
    rw [List.filterMap_cons]
    cases e.settled? <;> rfl
  rw [settled, h, List.filterMap_append, hlast, settled]

theorem settled_shutdown_release (s : Script) : s.shutdown.2.release.settled = s.settled := by
  rw [settled, history_shutdown_release, List.filterMap_append]
  exact List.append_nil _

theorem history_of_read {r : Except IoError Octets} (h : s.read n = (.ready r, t)) :
    t.history = s.history ++ [.read r] := by
  cases yields_of_read h with
  | held => exact history_of_record rfl
  | ended => exact history_of_record (by rw [deliver, List.take_nil])
  | data => exact history_of_record rfl
  | failure => exact history_of_record rfl

theorem history_of_read_again (h : s.read n = (.again, t)) : t.history = s.history := by
  cases yields_of_read h with
  | notReady => rfl

/-- No read brings more than was asked for. -/
theorem length_le_of_read {b : Octets} (h : s.read n = (.ready (.ok b), t)) : b.length ≤ n := by
  cases yields_of_read h with
  | held => exact List.length_take_le _ _
  | ended => exact Nat.zero_le n
  | data => exact List.length_take_le _ _

/-- There is nothing left to read. -/
def IsSpent (s : Script) : Prop := s.held = [] ∧ s.reads = []

theorem IsSpent.read {p : Progress (Except IoError Octets)} (hs : s.IsSpent)
    (h : s.read n = (p, t)) : t.IsSpent := by
  obtain ⟨hheld, hreads⟩ := hs
  cases yields_of_read h with
  | held hheld' => exact absurd hheld hheld'
  | ended => exact ⟨List.drop_nil, hreads⟩
  | data _ hreads' => simp [hreads] at hreads'
  | failure _ hreads' => simp [hreads] at hreads'
  | notReady _ hreads' => simp [hreads] at hreads'

theorem isSpent_of_read (hn : 0 < n) (hs : .data [] ∉ s.reads)
    (h : s.read n = (.ready (.ok []), t)) : t.IsSpent := by
  generalize hb : ([] : Octets) = b at h
  cases yields_of_read h with
  | held hheld => exact absurd (eq_nil_of_take_eq_nil hn hb.symm) hheld
  | ended hheld hreads => exact ⟨List.drop_nil, hreads⟩
  | data hheld hreads =>
    obtain rfl := eq_nil_of_take_eq_nil hn hb.symm
    exact absurd (hreads ▸ List.mem_cons_self) hs

/-- What reads of at most `n` octets have left of a script that was to bring these items. -/
structure ReadThrough (n : Nat) (items : List ReadItem) (s : Script) : Prop where
  received_append_unread : s.received ++ s.unread = items.flatMap ReadItem.octets
  length_le : ∀ b, .ok b ∈ s.settled → b.length ≤ n
  reads_mem : ∀ item ∈ s.reads, item ∈ items
  spent : .data [] ∉ items → .ok [] ∈ s.settled → s.IsSpent

namespace ReadThrough
variable {items : List ReadItem}

theorem new (n : Nat) (items : List ReadItem) (writes : List WriteItem)
    (flushError shutdownError : Option IoError) :
    ReadThrough n items (Script.new items writes flushError shutdownError) := by
  constructor
  · rfl
  · exact fun b hb => absurd hb List.not_mem_nil
  · exact fun _ hitem => hitem
  · exact fun _ hb => absurd hb List.not_mem_nil

/-- Something happened that is no read. -/
theorem of_history {events : List Event} (h : ReadThrough n items s)
    (hhistory : t.history = s.history ++ events) (hevents : ∀ e ∈ events, e.isRead = false)
    (hheld : t.held = s.held) (hreads : t.reads = s.reads) : ReadThrough n items t := by
  have hsettled : t.settled = s.settled := by
    have hnone : events.filterMap Event.settled? = [] :=
      List.filterMap_eq_nil_iff.2 fun e he => by
        cases e with
        | read result => exact absurd (hevents _ he) Bool.noConfusion
        | _ => rfl
    rw [settled, hhistory, List.filterMap_append, hnone, List.append_nil, settled]
  have hreceived : t.received = s.received := by
    rw [received_eq_flatMap_settled, hsettled, received_eq_flatMap_settled]
  constructor
  · rw [hreceived, unread, hheld, hreads]
    exact h.received_append_unread
  · rw [hsettled]
    exact h.length_le
  · rw [hreads]
    exact h.reads_mem
  · rw [hsettled, IsSpent, hheld, hreads]
    exact h.spent

theorem read {p : Progress (Except IoError Octets)} (hn : 0 < n) (h : ReadThrough n items s)
    (hread : s.read n = (p, t)) : ReadThrough n items t := by
  have hmem : ∀ item ∈ t.reads, item ∈ items :=
    fun item hitem => h.reads_mem item (reads_of_read hread item hitem)
  have hwhole := (advances_read hread).received_append_unread.trans h.received_append_unread
  cases p with
  | ready r =>
    have hsettled := settled_of_history (history_of_read hread)
    constructor
    · exact hwhole
    · intro b hb
      rw [hsettled, List.mem_append] at hb
      obtain hb | hb := hb
      · exact h.length_le b hb
      · rcases r with (_ | _) | _ <;> simp [Event.settled?] at hb
        exact hb ▸ length_le_of_read hread
    · exact hmem
    · intro hitems hb
      rw [hsettled, List.mem_append] at hb
      obtain hb | hb := hb
      · exact (h.spent hitems hb).read hread
      · rcases r with (_ | _) | _ <;> simp [Event.settled?] at hb
        subst hb
        exact isSpent_of_read hn (fun hempty => hitems (h.reads_mem _ hempty)) hread
  | again =>
    have hsettled : t.settled = s.settled := by
      rw [settled, history_of_read_again hread, settled]
    constructor
    · exact hwhole
    · rw [hsettled]
      exact h.length_le
    · exact hmem
    · rw [hsettled]
      exact fun hitems hb => (h.spent hitems hb).read hread
  | stalled => exact absurd hread read_ne_stalled

end ReadThrough

theorem mem_history_of_settled {b : Octets} (h : .ok b ∈ s.settled) :
    .read (.ok b) ∈ s.history := by
  obtain ⟨e, he, hsettled⟩ := List.mem_filterMap.1 h
  cases e with
  | read result =>
    rcases result with (_ | _) | _ <;> simp [Event.settled?] at hsettled
    exact hsettled ▸ he
  | _ => simp [Event.settled?] at hsettled

def ReadItem.isInterruption : ReadItem → Bool
  | .failure .interrupted => true
  | _ => false

def Event.isInterruption : Event → Bool
  | .read (.error .interrupted) => true
  | _ => false

/-- The same script without its interruptions, past and to come. -/
def uninterrupted (s : Script) : Script :=
  { s with
    reads := s.reads.filter fun item => !item.isInterruption
    record := s.record.filter fun e => !e.isInterruption }

theorem uninterrupted_eq_of_read (h : s.read n = (.ready (.error .interrupted), t)) :
    t.uninterrupted = s.uninterrupted := by
  cases yields_of_read h with
  | failure hheld hreads =>
    simp [uninterrupted, hreads, ReadItem.isInterruption, Event.isInterruption]

theorem read_uninterrupted {p : Progress (Except IoError Octets)}
    (hp : p ≠ .ready (.error .interrupted)) (h : s.read n = (p, t)) :
    s.uninterrupted.read n = (p, t.uninterrupted) := by
  obtain ⟨reads, writes, flushError, shutdownError, held, record⟩ := s
  obtain ⟨rfl, rfl⟩ := Prod.mk.inj h.symm
  cases held with
  | cons o os => rfl
  | nil =>
    match reads with
    | [] => rfl
    | .data b :: rest => rfl
    | .failure e :: rest =>
      cases e with
      | interrupted => exact absurd rfl hp
      | _ => rfl
    | .notReady :: rest => rfl

end Script

namespace PacketReader
open Script
variable {r : PacketReader} {s t : Script} {n : Nat} {p : Progress (Except Error Octets)}

/-- A read for a packet is settled once, with the answer it gives. -/
theorem settled_read (h : read n s = (p, t)) :
    t.settled = s.settled ++ (PacketStream.answerOf p).toList := by
  fun_induction read n s with
  | case1 s u hread hlt ih =>
    rw [ih h, settled_of_history (history_of_read hread)]
    exact congrArg (· ++ _) (List.append_nil _)
  | case2 s e u hne hread =>
    obtain ⟨rfl, rfl⟩ := Prod.mk.inj h
    rw [settled_of_history (history_of_read hread)]
    cases e with
    | interrupted => exact absurd rfl hne
    | _ => rfl
  | case3 s b u hread =>
    obtain ⟨rfl, rfl⟩ := Prod.mk.inj h
    rw [settled_of_history (history_of_read hread)]
    rfl
  | case4 s u hread =>
    obtain ⟨rfl, rfl⟩ := Prod.mk.inj h
    rw [settled, history_of_read_again hread]
    exact (List.append_nil _).symm
  | case5 s u hread => exact absurd hread Script.read_ne_stalled

theorem settled_pull (hr : r.isOpen = true) (h : r.pull s = (p, t)) :
    t.settled = s.settled ++ (PacketStream.answerOf p).toList := by
  rw [pull, if_pos hr] at h
  exact settled_read h

/-- No packet is larger than a reader's packets may be. -/
theorem length_le_of_pull {b : Octets} (h : r.pull s = (.ready (.ok b), t)) :
    b.length ≤ r.packetSize := by
  unfold pull at h
  split at h
  · fun_induction read r.packetSize s with
    | case1 s u hread hlt ih => exact ih h
    | case2 => simp at h
    | case3 s b' u hread =>
      obtain ⟨rfl, rfl⟩ := by simpa using h
      exact length_le_of_read hread
    | case4 => simp at h
    | case5 => simp at h
  · obtain ⟨rfl, -⟩ := by simpa using h
    exact Nat.zero_le _

theorem readThrough_read {items : List ReadItem} (hn : 0 < n) (hs : s.ReadThrough n items)
    (h : read n s = (p, t)) : t.ReadThrough n items := by
  fun_induction read n s with
  | case1 s u hread hlt ih => exact ih (hs.read hn hread) h
  | case2 s e u hne hread =>
    obtain ⟨rfl, rfl⟩ := Prod.mk.inj h
    exact hs.read hn hread
  | case3 s b u hread =>
    obtain ⟨rfl, rfl⟩ := Prod.mk.inj h
    exact hs.read hn hread
  | case4 s u hread =>
    obtain ⟨rfl, rfl⟩ := Prod.mk.inj h
    exact hs.read hn hread
  | case5 s u hread => exact absurd hread Script.read_ne_stalled

theorem readThrough_pull {items : List ReadItem} (hn : 0 < r.packetSize)
    (hs : s.ReadThrough r.packetSize items) (h : r.pull s = (p, t)) :
    t.ReadThrough r.packetSize items := by
  unfold pull at h
  split at h
  · exact readThrough_read hn hs h
  · obtain ⟨-, rfl⟩ := Prod.mk.inj h
    exact hs

/-- Whether a read was interrupted makes no difference. -/
theorem read_uninterrupted (n : Nat) (s : Script) :
    read n s.uninterrupted = ((read n s).1, (read n s).2.uninterrupted) := by
  fun_induction read n s with
  | case1 s u hread hlt ih => rw [← uninterrupted_eq_of_read hread, ih]
  | case2 s e u hne hread =>
    have hread := Script.read_uninterrupted (by simpa using hne) hread
    rw [read_eq, show Connection.read n s.uninterrupted = _ from hread]
    cases e with
    | interrupted => exact absurd rfl hne
    | _ => rfl
  | case3 s b u hread =>
    have hread := Script.read_uninterrupted (by simp) hread
    rw [read_eq, show Connection.read n s.uninterrupted = _ from hread]
  | case4 s u hread =>
    have hread := Script.read_uninterrupted (by simp) hread
    rw [read_eq, show Connection.read n s.uninterrupted = _ from hread]
  | case5 s u hread =>
    have hread := Script.read_uninterrupted (by simp) hread
    rw [read_eq, show Connection.read n s.uninterrupted = _ from hread]

theorem pull_uninterrupted (r : PacketReader) (s : Script) :
    r.pull s.uninterrupted = ((r.pull s).1, (r.pull s).2.uninterrupted) := by
  unfold pull
  split
  · exact read_uninterrupted _ s
  · rfl

theorem shutdown_uninterrupted (r : PacketReader) (s : Script) :
    r.shutdown s.uninterrupted =
      ((r.shutdown s).1, (r.shutdown s).2.1, (r.shutdown s).2.2.uninterrupted) := by
  unfold shutdown
  split <;> rfl

end PacketReader
end HttpWire
