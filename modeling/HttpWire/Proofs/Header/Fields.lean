import HttpWire.Proofs.Header.Lookup

/-! Fields in the order of their keys. Such a list is known from its fields under each key. -/
namespace HttpWire

namespace Field

/-- The lower-cased name. -/
def key (f : String × String) : String := Text.lower f.1

/-- The fields under one key, in order. -/
def under (k : String) (fields : List (String × String)) : List (String × String) :=
  fields.filter fun f => key f == k

/-- The keys do not decrease. -/
def Sorted (fields : List (String × String)) : Prop := fields.Pairwise fun f g => key f ≤ key g

theorem mem_under {k : String} {f : String × String} {fields : List (String × String)} :
    f ∈ under k fields ↔ f ∈ fields ∧ key f = k := by
  rw [under, List.mem_filter, beq_iff_eq]

theorem under_cons_of_eq {k : String} {f : String × String} (h : key f = k)
    (fields : List (String × String)) : under k (f :: fields) = f :: under k fields :=
  List.filter_cons_of_pos (by simp [h])

theorem under_cons_of_ne {k : String} {f : String × String} (h : key f ≠ k)
    (fields : List (String × String)) : under k (f :: fields) = under k fields :=
  List.filter_cons_of_neg (by simp [h])

theorem under_append (k : String) (fields gs : List (String × String)) :
    under k (fields ++ gs) = under k fields ++ under k gs :=
  List.filter_append fields gs

theorem under_eq_nil {k : String} {fields : List (String × String)}
    (h : ∀ f ∈ fields, key f ≠ k) : under k fields = [] := by
  refine List.filter_eq_nil_iff.2 fun f hf => ?_
  rw [beq_iff_eq]
  exact h f hf

/-- The least key of two sorted lists is the same if they agree under each key. -/
theorem Sorted.key_le {f : String × String} {fields gs : List (String × String)}
    (hs : Sorted (f :: fields)) (h : ∀ k, under k (f :: fields) = under k gs)
    {g : String × String} (hg : g ∈ gs) : key f ≤ key g := by
  have hmem : g ∈ under (key g) (f :: fields) := by
    rw [h]
    exact mem_under.2 ⟨hg, rfl⟩
  cases List.mem_cons.1 (mem_under.1 hmem).1 with
  | inl heq => exact heq ▸ String.le_refl _
  | inr hin => exact (List.pairwise_cons.1 hs).1 g hin

theorem Sorted.eq_of_under_eq {fields gs : List (String × String)} (hs : Sorted fields)
    (ht : Sorted gs) (h : ∀ k, under k fields = under k gs) : fields = gs := by
  induction fields generalizing gs with
  | nil =>
    cases gs with
    | nil => rfl
    | cons g gs =>
      have hnil := h (key g)
      rw [under_cons_of_eq rfl] at hnil
      simp [under] at hnil
  | cons f fields ih =>
    cases gs with
    | nil =>
      have hnil := h (key f)
      rw [under_cons_of_eq rfl] at hnil
      simp [under] at hnil
    | cons g gs =>
      have hle := hs.key_le h (List.mem_cons_self)
      have hge := ht.key_le (fun k => (h k).symm) (List.mem_cons_self)
      have hkey : key f = key g := String.le_antisymm hle hge
      have hhead := h (key f)
      rw [under_cons_of_eq rfl, under_cons_of_eq hkey.symm] at hhead
      obtain ⟨rfl, hrest⟩ := List.cons.inj hhead
      rw [ih (List.pairwise_cons.1 hs).2 (List.pairwise_cons.1 ht).2 fun k => ?_]
      by_cases hk : key f = k
      · rw [← hk]
        exact hrest
      · have hk' := h k
        rwa [under_cons_of_ne hk, under_cons_of_ne hk] at hk'

end Field

namespace HeaderMap
open HttpWire.Field

theorem key_of_mem_pairs {e : Entry} {f : String × String} (h : f ∈ e.pairs) :
    Field.key f = e.key := by
  obtain ⟨v, -, rfl⟩ := List.mem_map.1 h
  rfl

theorem under_pairs_of_ne {e : Entry} {k : String} (h : e.key ≠ k) : under k e.pairs = [] :=
  under_eq_nil fun _ hf hk => h ((key_of_mem_pairs hf).symm.trans hk)

/-- The pairs of a header map are sorted. -/
theorem sorted_pairs (m : HeaderMap) : Sorted m.pairs := by
  refine List.pairwise_flatMap.2 ⟨fun e _ => ?_, ?_⟩
  · refine List.pairwise_of_forall_mem_list fun f hf g hg => ?_
    have hkey : key f = key g := (key_of_mem_pairs hf).trans (key_of_mem_pairs hg).symm
    exact hkey ▸ String.le_refl _
  · refine m.sorted.imp fun {a b} hlt f hf g hg => ?_
    rw [key_of_mem_pairs hf, key_of_mem_pairs hg]
    exact Std.le_of_lt hlt

/-- Every pair of a header map is a valid field. -/
theorem problem?_of_mem_pairs {m : HeaderMap} {f : String × String} (h : f ∈ m.pairs) :
    problem? f.1 f.2 = none := by
  obtain ⟨e, he, hf⟩ := List.mem_flatMap.1 h
  obtain ⟨v, hv, rfl⟩ := List.mem_map.1 hf
  have hvalid := m.valid e he
  exact problem?_eq_none_iff.2 ⟨hvalid.isToken, hvalid.isValue v hv⟩

theorem under_flatMap_pairs_of_lt {k : String} {entries : List Entry}
    (h : ∀ e ∈ entries, k < e.key) : under k (entries.flatMap Entry.pairs) = [] := by
  refine under_eq_nil fun f hf hk => ?_
  obtain ⟨e, he, hf⟩ := List.mem_flatMap.1 hf
  have hlt := h e he
  rw [← key_of_mem_pairs hf, hk] at hlt
  exact String.lt_irrefl k hlt

/-- The fields under a key are the pairs of its entry. -/
theorem under_flatMap_pairs {entries : List Entry} (hs : entries.Pairwise (·.key < ·.key))
    (k : String) : under k (entries.flatMap Entry.pairs) =
      ((entries.find? (·.key == k)).map Entry.pairs).getD [] := by
  induction entries with
  | nil => rfl
  | cons e entries ih =>
    obtain ⟨he, hentries⟩ := List.pairwise_cons.1 hs
    rw [List.flatMap_cons, under_append]
    by_cases hk : e.key = k
    · have hall : under k e.pairs = e.pairs :=
        List.filter_eq_self.2 fun f hf => beq_iff_eq.2 ((key_of_mem_pairs hf).trans hk)
      rw [List.find?_cons_of_pos (by simpa using hk), hall,
        under_flatMap_pairs_of_lt fun x hx => hk ▸ he x hx, List.append_nil]
      rfl
    · rw [List.find?_cons_of_neg (by simpa using hk), under_pairs_of_ne hk, ih hentries,
        List.nil_append]

theorem under_insert {m m' : HeaderMap} {name value : String}
    (h : m.insert name value = .ok m') (k : String) :
    under k m'.pairs = if Text.lower name = k then [(name, value)] else under k m.pairs := by
  have hplace := find?_place (e := ⟨name, [value]⟩) (fun x _ => key_replaceEntry x _) m.sorted k
  rw [pairs, under_flatMap_pairs m'.sorted, entries_insert h, hplace, pairs,
    under_flatMap_pairs m.sorted, Entry.key]
  split
  · cases m.entries.find? (·.key == k) <;> rfl
  · rfl

theorem append_of_problem {m : HeaderMap} {name value : String} {p : Problem}
    (h : problem? name value = some p) : m.append name value = .error p := by
  unfold append
  split <;> simp_all

theorem insert_of_problem {m : HeaderMap} {name value : String} {p : Problem}
    (h : problem? name value = some p) : m.insert name value = .error p := by
  unfold insert
  split <;> simp_all

theorem exists_append (m : HeaderMap) {name value : String} (h : problem? name value = none) :
    ∃ m', m.append name value = .ok m' := by
  unfold append
  split
  · simp_all
  · exact ⟨_, rfl⟩

theorem ofPairs_concat {pairs : List (String × String)} {m : HeaderMap}
    (h : ofPairs pairs = .ok m) (pair : String × String) :
    ofPairs (pairs ++ [pair]) = m.append pair.1 pair.2 := by
  rw [ofPairs] at h
  rw [ofPairs, List.foldlM_append, h]
  exact bind_pure (m.append pair.1 pair.2)

theorem exists_insert {m : HeaderMap} {name value : String} (h : problem? name value = none) :
    ∃ m', m.insert name value = .ok m' := by
  unfold insert
  split
  · rename_i p hp
    simp [h] at hp
  · exact ⟨_, rfl⟩

end HeaderMap
end HttpWire
