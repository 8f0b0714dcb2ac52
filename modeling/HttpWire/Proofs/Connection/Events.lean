import HttpWire.Proofs.Connection.Input

/-! What an operation adds to the history of a scripted connection: events of its own kind. -/
namespace HttpWire
namespace Script
variable {p : Event → Bool} {s t u : Script}

/-- From `s` to `t` came only events of which `p` holds. -/
def Extends (p : Event → Bool) (s t : Script) : Prop :=
  ∃ events, t.history = s.history ++ events ∧ ∀ e ∈ events, p e = true

theorem history_of_record {e : Event} (h : t.record = e :: s.record) :
    t.history = s.history ++ [e] := by
  rw [history, h, List.reverse_cons, history]

namespace Extends

theorem refl (p : Event → Bool) (s : Script) : s.Extends p s :=
  ⟨[], (List.append_nil _).symm, List.forall_mem_nil _⟩

theorem trans (hst : s.Extends p t) (htu : t.Extends p u) : s.Extends p u := by
  obtain ⟨before, ht, hbefore⟩ := hst
  obtain ⟨after, hu, hafter⟩ := htu
  refine ⟨before ++ after, ?_, List.forall_mem_append.2 ⟨hbefore, hafter⟩⟩
  rw [hu, ht, List.append_assoc]

theorem of_record {e : Event} (h : t.record = e :: s.record) (he : p e = true) : s.Extends p t :=
  ⟨[e], history_of_record h, List.forall_mem_singleton.2 he⟩

theorem of_record_eq (h : t.record = s.record) : s.Extends p t := by
  refine ⟨[], ?_, List.forall_mem_nil _⟩
  rw [history, h, List.append_nil, history]

end Extends

theorem extends_read {n : Nat} {r : Progress (Except IoError Octets)} (h : s.read n = (r, t)) :
    s.Extends Event.isRead t := by
  cases yields_of_read h with
  | held => exact .of_record rfl rfl
  | ended => exact .of_record rfl rfl
  | data => exact .of_record rfl rfl
  | failure => exact .of_record rfl rfl
  | notReady => exact .of_record_eq rfl

theorem history_of_write {b : Octets} {r : Except IoError Nat} (h : s.write b = (.ready r, t)) :
    t.history = s.history ++ [.write b r] := by
  unfold write at h
  split at h
  · obtain ⟨hr, rfl⟩ := Prod.mk.inj h
    obtain rfl := Progress.ready.inj hr
    exact history_of_record rfl
  · obtain ⟨hr, rfl⟩ := Prod.mk.inj h
    obtain rfl := Progress.ready.inj hr
    exact history_of_record rfl
  · obtain ⟨hr, rfl⟩ := Prod.mk.inj h
    obtain rfl := Progress.ready.inj hr
    exact history_of_record rfl
  · simp at h

theorem history_of_write_again {b : Octets} (h : s.write b = (.again, t)) :
    t.history = s.history := by
  unfold write at h
  split at h
  · simp [answer] at h
  · simp [answer] at h
  · simp [answer] at h
  · obtain rfl := (Prod.mk.inj h).2
    rfl

theorem history_flush (s : Script) :
    s.flush.2.history = s.history ++ [.flush s.flush.1] :=
  history_of_record rfl

theorem history_shutdown_release (s : Script) :
    s.shutdown.2.release.history =
      s.history ++ [.shutdown (verdict s.shutdownError), .release] := by
  have hshutdown : s.shutdown.2.history = s.history ++ [.shutdown (verdict s.shutdownError)] :=
    history_of_record rfl
  have hrelease : s.shutdown.2.release.history = s.shutdown.2.history ++ [.release] :=
    history_of_record rfl
  rw [hrelease, hshutdown, List.append_assoc]
  rfl

/-- A write is put off or ends, but never stalls. -/
theorem write_ne_stalled {b : Octets} : s.write b ≠ (.stalled, t) := by
  unfold write
  split <;> simp [answer]

/-- An item that accepts something, if not at once. -/
def WriteItem.isAccepting : WriteItem → Bool
  | .accept n => n != 0
  | .failure _ => false
  | .notReady => true

theorem written_of_history {e : Event} (h : t.history = s.history ++ [e]) :
    t.written = s.written ++ e.accepted := by
  rw [written, h, List.flatMap_append, List.flatMap_singleton, written]

theorem le_length_of_write {b : Octets} {n : Nat} (h : s.write b = (.ready (.ok n), t)) :
    n ≤ b.length := by
  unfold write at h
  split at h
  · simp only [answer, Prod.mk.injEq, Progress.ready.injEq, Except.ok.injEq] at h
    omega
  · simp only [answer, Prod.mk.injEq, Progress.ready.injEq, Except.ok.injEq] at h
    omega
  · simp [answer] at h
  · simp at h

theorem flushError_of_write {b : Octets} {p : Progress (Except IoError Nat)}
    (h : s.write b = (p, t)) : t.flushError = s.flushError := by
  unfold write at h
  split at h <;> obtain ⟨-, rfl⟩ := Prod.mk.inj h <;> rfl

theorem writes_of_write {b : Octets} {p : Progress (Except IoError Nat)}
    (h : s.write b = (p, t)) : ∀ item ∈ t.writes, item ∈ s.writes := by
  unfold write at h
  intro item hitem
  split at h
  all_goals
    rename_i hwrites
    obtain ⟨-, rfl⟩ := Prod.mk.inj h
  · exact hitem
  all_goals
    rw [hwrites]
    exact List.mem_cons_of_mem _ hitem

/-- A write of something, if no item fails or accepts nothing. -/
theorem write_of_isAccepting {b : Octets} {p : Progress (Except IoError Nat)} (hb : b ≠ [])
    (hs : ∀ item ∈ s.writes, item.isAccepting = true) (h : s.write b = (p, t)) :
    p = .again ∨ ∃ n, p = .ready (.ok (n + 1)) := by
  have hpos := List.length_pos_iff.2 hb
  unfold write at h
  split at h
  all_goals
    rename_i hwrites
    obtain ⟨rfl, -⟩ := Prod.mk.inj h
  · exact .inr ⟨b.length - 1, by rw [Nat.sub_add_cancel hpos]⟩
  · rename_i n rest
    have hn : n ≠ 0 := by simpa [WriteItem.isAccepting] using hs (.accept n) (by simp [hwrites])
    exact .inr ⟨min n b.length - 1, by rw [Nat.sub_add_cancel (by omega)]⟩
  · rename_i e rest
    exact absurd (hs (.failure e) (by simp [hwrites])) Bool.false_ne_true
  · exact .inl rfl

end Script

namespace PacketReader
open Script
variable {s t : Script}

theorem extends_read {n : Nat} {r : Progress (Except Error Octets)} (h : read n s = (r, t)) :
    s.Extends Event.isRead t := by
  fun_induction read n s with
  | case1 s u hread hlt ih => exact (Script.extends_read hread).trans (ih h)
  | case2 s e u hne hread =>
    obtain ⟨rfl, rfl⟩ := Prod.mk.inj h
    exact Script.extends_read hread
  | case3 s b u hread =>
    obtain ⟨rfl, rfl⟩ := Prod.mk.inj h
    exact Script.extends_read hread
  | case4 s u hread =>
    obtain ⟨rfl, rfl⟩ := Prod.mk.inj h
    exact Script.extends_read hread
  | case5 s u hread =>
    obtain ⟨rfl, rfl⟩ := Prod.mk.inj h
    exact Script.extends_read hread

/-- A pull does nothing but read. -/
theorem extends_pull {reader : PacketReader} {r : Progress (Except Error Octets)}
    (h : reader.pull s = (r, t)) : s.Extends Event.isRead t := by
  unfold pull at h
  split at h
  · exact extends_read h
  · obtain ⟨rfl, rfl⟩ := Prod.mk.inj h
    exact .refl _ s

theorem history_shutdown {reader : PacketReader} (hopen : reader.isOpen = true) (s : Script) :
    (reader.shutdown s).2.2.history =
      s.history ++ [.shutdown (verdict s.shutdownError), .release] := by
  rw [shutdown, if_pos hopen]
  exact s.history_shutdown_release

end PacketReader
end HttpWire
