import HttpWire.Connection.Script
import HttpWire.Packet.Reader
import Mathlib

/-! What is read from a scripted connection: the octets received so far and those still unread are
always the octets of the whole script. -/
namespace HttpWire
namespace Script

/-- The octets that an item brings. -/
def ReadItem.octets : ReadItem → Octets
  | .data b => b
  | _ => []

/-- An item that neither ends the input nor breaks it. -/
def ReadItem.isSmooth : ReadItem → Bool
  | .data b => b != []
  | .failure e => e == .interrupted
  | .notReady => true

/-- The octets that an operation has read. -/
def Event.received : Event → Octets
  | .read (.ok b) => b
  | _ => []

/-- Everything read so far. -/
def received (s : Script) : Octets := s.history.flatMap Event.received

/-- The octets that are still to be read. -/
def unread (s : Script) : Octets := s.held ++ s.reads.flatMap ReadItem.octets

/-- The input ends only after its last item, and no read fails for good. -/
def IsSmooth (s : Script) : Prop := ∀ item ∈ s.reads, item.isSmooth = true

/-- Every read was issued when `P` held of what had been received before it. -/
def ReadsOnlyWhile (P : Octets → Prop) (s : Script) : Prop :=
  ∀ before result after, s.history = before ++ .read result :: after →
    P (before.flatMap Event.received)

theorem readsOnlyWhile_new (P : Octets → Prop) (reads : List ReadItem) (writes : List WriteItem)
    (flushError shutdownError : Option IoError) :
    (new reads writes flushError shutdownError).ReadsOnlyWhile P := by
  intro before result after h
  simp [new, history] at h

theorem received_of_record {s t : Script} {e : Event} (h : t.record = e :: s.record) :
    t.received = s.received ++ e.received := by
  simp [received, history, h]

theorem readsOnlyWhile_of_record {P : Octets → Prop} {s t : Script} {e : Event}
    (h : t.record = e :: s.record) (hs : s.ReadsOnlyWhile P)
    (he : e.isRead = true → P s.received) : t.ReadsOnlyWhile P := by
  intro before result after hsplit
  rw [history, h, List.reverse_cons] at hsplit
  cases List.eq_nil_or_concat after with
  | inl hnil =>
    subst hnil
    obtain ⟨hbefore, hlast⟩ := List.append_inj' hsplit rfl
    obtain rfl : e = .read result := by simpa using hlast
    rw [← hbefore]
    exact he rfl
  | inr hconcat =>
    obtain ⟨after', last, rfl⟩ := hconcat
    rw [List.concat_eq_append, ← List.cons_append, ← List.append_assoc] at hsplit
    exact hs before result after' (List.append_inj' hsplit rfl).1

/-- What was received before a read is a part of what was received. -/
theorem ReadsOnlyWhile.imp {P Q : Octets → Prop} {s : Script} (h : s.ReadsOnlyWhile P)
    (hPQ : ∀ b, b <+: s.received → P b → Q b) : s.ReadsOnlyWhile Q := by
  intro before result after hsplit
  refine hPQ _ ?_ (h before result after hsplit)
  rw [received, hsplit, List.flatMap_append]
  exact List.prefix_append _ _

/-- From `s` to `t` the octets `b` were received. -/
structure Advances (s : Script) (b : Octets) (t : Script) : Prop where
  received_eq : t.received = s.received ++ b
  unread_eq : s.unread = b ++ t.unread
  smooth : s.IsSmooth → t.IsSmooth
  readsOnlyWhile : ∀ P, P s.received → s.ReadsOnlyWhile P → t.ReadsOnlyWhile P

namespace Advances

/-- Nothing is lost. -/
theorem received_append_unread {s t : Script} {b : Octets} (h : s.Advances b t) :
    t.received ++ t.unread = s.received ++ s.unread := by
  rw [h.received_eq, h.unread_eq, List.append_assoc]

theorem trans {s t u : Script} {b : Octets} (hst : s.Advances [] t) (htu : t.Advances b u) :
    s.Advances b u := by
  have hreceived : t.received = s.received := hst.received_eq.trans (List.append_nil _)
  constructor
  · rw [htu.received_eq, hreceived]
  · rw [hst.unread_eq, List.nil_append, htu.unread_eq]
  · exact fun hs => htu.smooth (hst.smooth hs)
  · intro P hP hs
    exact htu.readsOnlyWhile P (hreceived ▸ hP) (hst.readsOnlyWhile P hP hs)

theorem of_record_eq {s t : Script} (hrecord : t.record = s.record) (hunread : t.unread = s.unread)
    (hreads : ∀ item ∈ t.reads, item ∈ s.reads) : s.Advances [] t := by
  constructor
  · rw [received, received, history, history, hrecord, List.append_nil]
  · exact hunread.symm
  · exact fun hs item hitem => hs item (hreads item hitem)
  · intro P _ hs before result after hsplit
    rw [history, hrecord] at hsplit
    exact hs before result after hsplit

theorem refl (s : Script) : s.Advances [] s := of_record_eq rfl rfl fun _ h => h

theorem of_record_cons {s t : Script} {e : Event} (hrecord : t.record = e :: s.record)
    (hunread : s.unread = e.received ++ t.unread) (hreads : ∀ item ∈ t.reads, item ∈ s.reads) :
    s.Advances e.received t := by
  constructor
  · exact received_of_record hrecord
  · exact hunread
  · exact fun hs item hitem => hs item (hreads item hitem)
  · exact fun P hP hs => readsOnlyWhile_of_record hrecord hs fun _ => hP

end Advances

/-- The octets of an answer, if it is a packet. -/
def answered {ε : Type} : Progress (Except ε Octets) → Octets
  | .ready (.ok b) => b
  | _ => []

theorem advances_deliver {n : Nat} {b : Octets} {s u : Script}
    (hrecord : u.record = s.record) (hunread : s.unread = b ++ u.reads.flatMap ReadItem.octets)
    (hreads : ∀ item ∈ u.reads, item ∈ s.reads) :
    s.Advances (b.take n) (u.deliver n b).2 := by
  refine .of_record_cons (e := .read (.ok (b.take n))) (by rw [← hrecord]; rfl) ?_ hreads
  rw [hunread, unread, Event.received, ← List.append_assoc, deliver, List.take_append_drop]

/-- All that one read can come to. -/
inductive Yields (n : Nat) (s : Script) : Progress (Except IoError Octets) → Script → Prop
  | held (hheld : s.held ≠ []) : Yields n s (.ready (.ok (s.held.take n))) (s.deliver n s.held).2
  | ended (hheld : s.held = []) (hreads : s.reads = []) :
    Yields n s (.ready (.ok [])) (s.deliver n []).2
  | data {b : Octets} {rest : List ReadItem} (hheld : s.held = [])
    (hreads : s.reads = .data b :: rest) :
    Yields n s (.ready (.ok (b.take n))) ({ s with reads := rest }.deliver n b).2
  | failure {e : IoError} {rest : List ReadItem} (hheld : s.held = [])
    (hreads : s.reads = .failure e :: rest) :
    Yields n s (.ready (.error e))
      { s with reads := rest, record := .read (.error e) :: s.record }
  | notReady {rest : List ReadItem} (hheld : s.held = []) (hreads : s.reads = .notReady :: rest) :
    Yields n s .again { s with reads := rest }

theorem yields_of_read {n : Nat} {s t : Script} {p : Progress (Except IoError Octets)}
    (h : s.read n = (p, t)) : s.Yields n p t := by
  unfold read at h
  split at h
  · obtain ⟨rfl, rfl⟩ := Prod.mk.inj h
    exact .held ‹_›
  · rename_i hheld
    have hheld : s.held = [] := by simpa using hheld
    split at h
    · obtain ⟨hp, rfl⟩ := Prod.mk.inj h
      obtain rfl : p = .ready (.ok []) := by rw [← hp, List.take_nil]
      exact .ended hheld ‹_›
    · obtain ⟨rfl, rfl⟩ := Prod.mk.inj h
      exact .data hheld ‹_›
    · obtain ⟨rfl, rfl⟩ := Prod.mk.inj h
      exact .failure hheld ‹_›
    · obtain ⟨rfl, rfl⟩ := Prod.mk.inj h
      exact .notReady hheld ‹_›

theorem reads_of_read {n : Nat} {s t : Script} {p : Progress (Except IoError Octets)}
    (h : s.read n = (p, t)) : ∀ item ∈ t.reads, item ∈ s.reads := by
  have hmem {item : ReadItem} {rest : List ReadItem} (hreads : s.reads = item :: rest) :
      ∀ item ∈ rest, item ∈ s.reads := by
    rw [hreads]
    exact fun _ hitem => List.mem_cons_of_mem _ hitem
  cases yields_of_read h with
  | held => exact fun _ hitem => hitem
  | ended => exact fun _ hitem => hitem
  | data hheld hreads => exact hmem hreads
  | failure hheld hreads => exact hmem hreads
  | notReady hheld hreads => exact hmem hreads

theorem advances_read {n : Nat} {s t : Script} {p : Progress (Except IoError Octets)}
    (h : s.read n = (p, t)) : s.Advances (answered p) t := by
  have hmem := reads_of_read h
  cases yields_of_read h with
  | held => exact advances_deliver rfl rfl hmem
  | ended hheld hreads =>
    have ha := advances_deliver (n := n) (b := []) (u := s) rfl (by rw [unread, hheld]) hmem
    rwa [List.take_nil] at ha
  | data hheld hreads =>
    refine advances_deliver rfl ?_ hmem
    rw [unread, hheld, hreads]
    rfl
  | failure hheld hreads =>
    refine .of_record_cons (e := .read (.error _)) rfl ?_ hmem
    rw [unread, hreads]
    rfl
  | notReady hheld hreads =>
    refine .of_record_eq rfl ?_ hmem
    rw [unread, unread, hreads]
    rfl

/-- A read is put off or ends, but never stalls. -/
theorem read_ne_stalled {n : Nat} {s t : Script} : s.read n ≠ (.stalled, t) :=
  fun h => nomatch yields_of_read h

theorem eq_interrupted_of_read {n : Nat} {s t : Script} {e : IoError} (hs : s.IsSmooth)
    (h : s.read n = (.ready (.error e), t)) : e = .interrupted := by
  cases yields_of_read h with
  | failure hheld hreads =>
    have hsmooth := hs (.failure e) (by simp [hreads])
    simpa [ReadItem.isSmooth] using hsmooth

theorem eq_nil_of_take_eq_nil {n : Nat} {b : Octets} (hn : 0 < n) (h : b.take n = []) : b = [] :=
  (List.take_eq_nil_iff.1 h).resolve_left (Nat.ne_of_gt hn)

theorem unread_eq_nil_of_read {n : Nat} {s t : Script} (hs : s.IsSmooth) (hn : 0 < n)
    (h : s.read n = (.ready (.ok []), t)) : s.unread = [] := by
  generalize hb : ([] : Octets) = b at h
  cases yields_of_read h with
  | held hheld => exact absurd (eq_nil_of_take_eq_nil hn hb.symm) hheld
  | ended hheld hreads => simp [unread, hheld, hreads]
  | data hheld hreads =>
    obtain rfl := eq_nil_of_take_eq_nil hn hb.symm
    have hsmooth := hs (.data []) (by simp [hreads])
    simp [ReadItem.isSmooth] at hsmooth

theorem advances_write {b : Octets} {s t : Script} {p : Progress (Except IoError Nat)}
    (h : s.write b = (p, t)) : s.Advances [] t := by
  unfold write at h
  split at h <;> obtain ⟨rfl, rfl⟩ := Prod.mk.inj h
  · exact .of_record_cons (e := .write b _) rfl rfl fun _ hitem => hitem
  · exact .of_record_cons (e := .write b _) rfl rfl fun _ hitem => hitem
  · exact .of_record_cons (e := .write b _) rfl rfl fun _ hitem => hitem
  · exact .of_record_eq rfl rfl fun _ hitem => hitem

theorem advances_flush (s : Script) : s.Advances [] s.flush.2 :=
  .of_record_cons (e := .flush _) rfl rfl fun _ hitem => hitem

end Script

namespace PacketReader
open Script
variable {r : PacketReader} {s t : Script}

theorem advances_read {n : Nat} {p : Progress (Except Error Octets)}
    (h : read n s = (p, t)) : s.Advances (answered p) t := by
  fun_induction read n s with
  | case1 s u hread hlt ih => exact (Script.advances_read hread).trans (ih h)
  | case2 s e u hne hread =>
    obtain ⟨rfl, rfl⟩ := Prod.mk.inj h
    exact Script.advances_read hread
  | case3 s b u hread =>
    obtain ⟨rfl, rfl⟩ := Prod.mk.inj h
    exact Script.advances_read hread
  | case4 s u hread =>
    obtain ⟨rfl, rfl⟩ := Prod.mk.inj h
    exact Script.advances_read hread
  | case5 s u hread =>
    obtain ⟨rfl, rfl⟩ := Prod.mk.inj h
    exact Script.advances_read hread

/-- A pull takes from the connection the octets that it answers with. -/
theorem advances_pull {p : Progress (Except Error Octets)} (h : r.pull s = (p, t)) :
    s.Advances (answered p) t := by
  unfold pull at h
  split at h
  · exact advances_read h
  · obtain ⟨rfl, rfl⟩ := Prod.mk.inj h
    exact .refl s

theorem pull_ne_stalled : r.pull s ≠ (.stalled, t) := by
  intro h
  unfold pull at h
  split at h
  · fun_induction read r.packetSize s with
    | case1 s u hread hlt ih => exact ih h
    | case2 => simp at h
    | case3 => simp at h
    | case4 => simp at h
    | case5 s u hread => exact Script.read_ne_stalled hread
  · simp at h

theorem pull_ne_error {e : Error} (hs : s.IsSmooth) : r.pull s ≠ (.ready (.error e), t) := by
  intro h
  unfold pull at h
  split at h
  · fun_induction read r.packetSize s with
    | case1 s u hread hlt ih => exact ih ((Script.advances_read hread).smooth hs) h
    | case2 s e u hne hread => exact hne (Script.eq_interrupted_of_read hs hread)
    | case3 => simp at h
    | case4 => simp at h
    | case5 => simp at h
  · simp at h

/-- No pull fails but for the connection. -/
theorem exists_io_of_pull {e : Error} (h : r.pull s = (.ready (.error e), t)) :
    ∃ cause, e = .io cause := by
  unfold pull at h
  split at h
  · fun_induction read r.packetSize s with
    | case1 s u hread hlt ih => exact ih h
    | case2 s cause u hne hread =>
      obtain ⟨rfl, -⟩ := by simpa using h
      exact ⟨cause, rfl⟩
    | case3 => simp at h
    | case4 => simp at h
    | case5 => simp at h
  · simp at h

/-- An empty packet comes when everything was read. -/
theorem unread_eq_nil_of_pull (hr : r.isOpen = true) (hsize : 0 < r.packetSize)
    (hs : s.IsSmooth) (h : r.pull s = (.ready (.ok []), t)) : s.unread = [] := by
  rw [pull, if_pos hr] at h
  fun_induction read r.packetSize s with
  | case1 s u hread hlt ih =>
    have hadvance := Script.advances_read hread
    exact hadvance.unread_eq.trans (ih (hadvance.smooth hs) h)
  | case2 => simp at h
  | case3 s b u hread =>
    obtain ⟨rfl, rfl⟩ := by simpa using h
    exact Script.unread_eq_nil_of_read hs hsize hread
  | case4 => simp at h
  | case5 => simp at h

theorem isOpen_shutdown (r : PacketReader) (s : Script) : (r.shutdown s).2.1.isOpen = false := by
  unfold shutdown
  split
  · rfl
  · rename_i hopen
    simpa using hopen

theorem unread_shutdown (r : PacketReader) (s : Script) :
    (r.shutdown s).2.2.unread = s.unread := by
  unfold shutdown
  split <;> rfl

end PacketReader
end HttpWire
