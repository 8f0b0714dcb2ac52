import HttpWire.Text
import Mathlib

/-! Trimming by what it leaves: the rest of a list when a run of certain elements is taken from each
end, as long as there are any. -/
namespace HttpWire.Text
variable {α β : Type} {p : α → Bool} {whole core : List α}

/-- `core` is `whole` without the elements at its ends that `p` holds of. -/
structure Trimmed (p : α → Bool) (whole core : List α) : Prop where
  ends : ∃ front back, whole = front ++ core ++ back ∧
    (∀ a ∈ front, p a = true) ∧ ∀ a ∈ back, p a = true
  first : ∀ a ∈ core.head?, p a = false
  last : ∀ a ∈ core.getLast?, p a = false

theorem dropWhile_eq_self_of_first {l : List α} (h : ∀ a ∈ l.head?, p a = false) :
    l.dropWhile p = l := by
  cases l with
  | nil => rfl
  | cons a l =>
    have ha : p a = false := h a rfl
    exact List.dropWhile_cons_of_neg (by simp [ha])

theorem first_dropWhile (p : α → Bool) (l : List α) : ∀ a ∈ (l.dropWhile p).head?, p a = false := by
  intro a ha
  have hfirst := List.head?_dropWhile_not p l
  rw [Option.mem_def.1 ha] at hfirst
  exact hfirst

theorem Trimmed.rdropWhile_dropWhile_eq (h : Trimmed p whole core) :
    (whole.dropWhile p).rdropWhile p = core := by
  obtain ⟨front, back, rfl, hfront, hback⟩ := h.ends
  have hback' : ∀ a ∈ back.reverse, p a = true := fun a ha => hback a (List.mem_reverse.1 ha)
  have hlast : ∀ a ∈ core.reverse.head?, p a = false := by
    rw [List.head?_reverse]
    exact h.last
  have hdrop : (core ++ back).dropWhile p = core ++ back ∨ core = [] ∧ back.dropWhile p = [] := by
    cases core with
    | nil => exact .inr ⟨rfl, List.dropWhile_eq_nil_iff.2 hback⟩
    | cons a core => exact .inl (dropWhile_eq_self_of_first h.first)
  rw [List.append_assoc, List.dropWhile_append_of_pos hfront]
  obtain hkept | ⟨rfl, hnone⟩ := hdrop
  · rw [hkept, List.rdropWhile, List.reverse_append, List.dropWhile_append_of_pos hback',
      dropWhile_eq_self_of_first hlast, List.reverse_reverse]
  · rw [List.nil_append, hnone, List.rdropWhile_nil]

section Drop
variable (p q : α → Bool) (whole : List α)

theorem exists_ends : ∃ front back, whole = front ++ (whole.dropWhile p).rdropWhile q ++ back ∧
    (∀ a ∈ front, p a = true) ∧ ∀ a ∈ back, q a = true := by
  refine ⟨whole.takeWhile p, (whole.dropWhile p).rtakeWhile q, ?_, ?_, ?_⟩
  · rw [List.append_assoc, List.rdropWhile_append_rtakeWhile, List.takeWhile_append_dropWhile]
  · exact fun a ha => List.mem_takeWhile_imp ha
  · exact fun a ha => List.mem_rtakeWhile_imp ha

theorem first_rdropWhile_dropWhile :
    ∀ a ∈ ((whole.dropWhile p).rdropWhile q).head?, p a = false := by
  intro a ha
  refine first_dropWhile p whole a ?_
  obtain ⟨rest, hrest⟩ := List.rdropWhile_prefix q (whole.dropWhile p)
  rw [← hrest]
  exact List.mem_head?_append_of_mem_head? ha

theorem last_rdropWhile : ∀ a ∈ (whole.rdropWhile q).getLast?, q a = false := by
  intro a ha
  rw [List.rdropWhile, List.getLast?_reverse] at ha
  exact first_dropWhile q _ a ha

/-- Whatever is at the ends can be trimmed off. -/
theorem trimmed_rdropWhile_dropWhile : Trimmed p whole ((whole.dropWhile p).rdropWhile p) :=
  ⟨exists_ends p p whole, first_rdropWhile_dropWhile p p whole, last_rdropWhile p _⟩

end Drop

theorem trim_eq_iff {p : Char → Bool} {whole core : List Char} :
    trim p whole = core ↔ Trimmed p whole core := by
  constructor
  · rintro rfl
    exact trimmed_rdropWhile_dropWhile p whole
  · exact fun h => h.rdropWhile_dropWhile_eq

theorem Trimmed.mem {a : α} (h : Trimmed p whole core) (ha : a ∈ core) : a ∈ whole := by
  obtain ⟨front, back, rfl, -, -⟩ := h.ends
  exact List.mem_append_left _ (List.mem_append_right _ ha)

/-- A list of other elements is trimmed already. -/
theorem trimmed_self (h : ∀ a ∈ whole, p a = false) : Trimmed p whole whole := by
  constructor
  · exact ⟨[], [], by simp, by simp, by simp⟩
  · exact fun a ha => h a (List.mem_of_mem_head? ha)
  · exact fun a ha => h a (List.mem_of_mem_getLast? ha)

theorem Trimmed.cons {a : α} (h : Trimmed p whole core) (ha : p a = true) :
    Trimmed p (a :: whole) core := by
  obtain ⟨front, back, rfl, hfront, hback⟩ := h.ends
  refine ⟨⟨a :: front, back, rfl, ?_, hback⟩, h.first, h.last⟩
  exact List.forall_mem_cons.2 ⟨ha, hfront⟩

/-- Trimming of more elements does no more if there are none of them at the ends. -/
theorem Trimmed.widen {q : α → Bool} (h : Trimmed p whole core)
    (himp : ∀ a, p a = true → q a = true) (hfirst : ∀ a ∈ core.head?, q a = false)
    (hlast : ∀ a ∈ core.getLast?, q a = false) : Trimmed q whole core := by
  obtain ⟨front, back, hwhole, hfront, hback⟩ := h.ends
  refine ⟨⟨front, back, hwhole, ?_, ?_⟩, hfirst, hlast⟩
  · exact fun a ha => himp a (hfront a ha)
  · exact fun a ha => himp a (hback a ha)

theorem Trimmed.unique {core core' : List Char} {p : Char → Bool} {whole : List Char}
    (h : Trimmed p whole core) (h' : Trimmed p whole core') : core = core' :=
  (trim_eq_iff.2 h).symm.trans (trim_eq_iff.2 h')

theorem Trimmed.map {q : β → Bool} {f : α → β} (h : Trimmed p whole core)
    (hf : ∀ a, q (f a) = p a) : Trimmed q (whole.map f) (core.map f) := by
  obtain ⟨front, back, rfl, hfront, hback⟩ := h.ends
  have hall {l : List α} (hl : ∀ a ∈ l, p a = true) : ∀ b ∈ l.map f, q b = true := by
    intro b hb
    obtain ⟨a, ha, rfl⟩ := List.mem_map.1 hb
    rw [hf, hl a ha]
  constructor
  · refine ⟨front.map f, back.map f, ?_, hall hfront, hall hback⟩
    rw [List.map_append, List.map_append]
  · rw [List.head?_map]
    intro b hb
    obtain ⟨a, ha, rfl⟩ := Option.map_eq_some_iff.1 hb
    rw [hf, h.first a ha]
  · rw [List.getLast?_map]
    intro b hb
    obtain ⟨a, ha, rfl⟩ := Option.map_eq_some_iff.1 hb
    rw [hf, h.last a ha]

end HttpWire.Text
