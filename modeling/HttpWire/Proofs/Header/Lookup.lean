import HttpWire.Header.Map
import Mathlib

/-! The entry of a name, before and after each operation on a header map. -/
namespace HttpWire.HeaderMap
variable {m m' : HeaderMap}

theorem find?_eq_none_of_lt {k : String} {entries : List Entry} (h : ∀ x ∈ entries, k < x.key) :
    entries.find? (·.key == k) = none := by
  refine List.find?_eq_none.2 fun x hx hkey => ?_
  have hlt := h x hx
  rw [beq_iff_eq.1 hkey] at hlt
  exact String.lt_irrefl k hlt

/-- Only the entry under the key of `e` changes. -/
theorem find?_place {join : Entry → Entry → Entry} {e : Entry}
    (hjoin : ∀ x, x.key = e.key → (join x e).key = e.key) {entries : List Entry}
    (hs : entries.Pairwise (·.key < ·.key)) (k : String) :
    (place join e entries).find? (·.key == k) =
      if e.key = k then some (((entries.find? (·.key == k)).map (join · e)).getD e)
      else entries.find? (·.key == k) := by
  induction entries with
  | nil =>
    rw [place]
    split
    · exact List.find?_cons_of_pos (by simpa using ‹e.key = k›)
    · exact List.find?_cons_of_neg (by simpa using ‹¬ e.key = k›)
  | cons x entries ih =>
    obtain ⟨hx, hentries⟩ := List.pairwise_cons.1 hs
    rw [place]
    split
    · rename_i hlt
      split
      -- the keys increase, so no entry after `e` has its key
      · rename_i hk
        have habsent : (x :: entries).find? (·.key == k) = none := by
          apply find?_eq_none_of_lt
          rw [← hk]
          exact List.forall_mem_cons.2 ⟨hlt, fun y hy => String.lt_trans hlt (hx y hy)⟩
        rw [habsent]
        exact List.find?_cons_of_pos (by simpa using hk)
      · exact List.find?_cons_of_neg (by simpa using ‹¬ e.key = k›)
    · rename_i hge
      split
      · rename_i hlt
        by_cases hk : x.key = k
        · have hne : ¬ e.key = k := by
            rintro rfl
            rw [hk] at hlt
            exact String.lt_irrefl _ hlt
          rw [if_neg hne, List.find?_cons_of_pos (by simpa using hk),
            List.find?_cons_of_pos (by simpa using hk)]
        · rw [List.find?_cons_of_neg (by simpa using hk), ih hentries,
            List.find?_cons_of_neg (by simpa using hk)]
      · rename_i hle
        have hkey : x.key = e.key :=
          String.le_antisymm (String.not_lt.1 hge) (String.not_lt.1 hle)
        split
        · rename_i hk
          rw [List.find?_cons_of_pos (by simpa [hjoin x hkey] using hk),
            List.find?_cons_of_pos (by simpa [hkey] using hk)]
          rfl
        · rename_i hk
          rw [List.find?_cons_of_neg (by simpa [hjoin x hkey] using hk),
            List.find?_cons_of_neg (by simpa [hkey] using hk)]

theorem entries_insert {name value : String} (h : m.insert name value = .ok m') :
    m'.entries = place replaceEntry ⟨name, [value]⟩ m.entries := by
  unfold insert at h
  split at h
  · simp at h
  · obtain rfl := Except.ok.inj h
    rfl

theorem entries_append {name value : String} (h : m.append name value = .ok m') :
    m'.entries = place extendEntry ⟨name, [value]⟩ m.entries := by
  unfold append at h
  split at h
  · simp at h
  · obtain rfl := Except.ok.inj h
    rfl

theorem entry?_insert {name value : String} (h : m.insert name value = .ok m') (n : String) :
    m'.entry? n =
      if Text.lower name = Text.lower n then some ⟨name, [value]⟩ else m.entry? n := by
  have hplace := find?_place (e := ⟨name, [value]⟩) (fun x _ => key_replaceEntry x _) m.sorted
    (Text.lower n)
  rw [HeaderMap.entry?, entries_insert h, hplace, HeaderMap.entry?, Entry.key]
  split
  · cases m.entries.find? (·.key == Text.lower n) <;> rfl
  · rfl

/-- A name that is there keeps its casing and gains a value. -/
theorem entry?_append {name value : String} (h : m.append name value = .ok m') (n : String) :
    m'.entry? n =
      if Text.lower name = Text.lower n then
        some (((m.entry? n).map fun e => ⟨e.name, e.values ++ [value]⟩).getD ⟨name, [value]⟩)
      else m.entry? n := by
  have hplace := find?_place (e := ⟨name, [value]⟩)
    (fun x hk => (key_extendEntry x _).trans hk) m.sorted (Text.lower n)
  rw [HeaderMap.entry?, entries_append h, hplace, HeaderMap.entry?, Entry.key]
  rfl

theorem entry?_erase (m : HeaderMap) (name n : String) :
    HeaderMap.entry? (m.erase name) n =
      if Text.lower name = Text.lower n then none else m.entry? n := by
  rw [HeaderMap.entry?, erase, List.find?_filter]
  split
  · rename_i hname
    refine List.find?_eq_none.2 fun x _ hx => ?_
    simp [hname] at hx
  · rename_i hname
    refine congrFun (congrArg List.find? (funext fun x => ?_)) _
    by_cases hx : x.key = Text.lower n
    · simp [hx, Ne.symm hname]
    · simp [hx]

theorem nodup_keys (m : HeaderMap) : (m.entries.map Entry.key).Nodup := by
  refine List.pairwise_map.2 (m.sorted.imp fun {a b} hlt heq => ?_)
  exact String.lt_irrefl b.key (heq ▸ hlt)

/-- There is one entry for a name, whatever its casing. -/
theorem entry?_eq_some_iff {e : Entry} {name : String} :
    m.entry? name = some e ↔ e ∈ m.entries ∧ e.key = Text.lower name := by
  constructor
  · intro h
    have hkey := List.find?_some h
    exact ⟨List.mem_of_find?_eq_some h, beq_iff_eq.1 hkey⟩
  · rintro ⟨he, hkey⟩
    cases hfound : m.entry? name with
    | none => exact absurd (beq_iff_eq.2 hkey) (List.find?_eq_none.1 hfound e he)
    | some x =>
      have hx := List.mem_of_find?_eq_some hfound
      have hxkey := List.find?_some hfound
      have hsame : x.key = e.key := (beq_iff_eq.1 hxkey).trans hkey.symm
      exact congrArg some (List.inj_on_of_nodup_map m.nodup_keys hx he hsame)

end HttpWire.HeaderMap
