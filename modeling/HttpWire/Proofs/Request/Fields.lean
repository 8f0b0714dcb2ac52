import HttpWire.Proofs.Header.Fields
import HttpWire.Request.Encoding

/-! The header fields that are sent. To filter, extend and sort the fields comes to the same as to
insert the derived fields into the caller's map. -/
namespace HttpWire.Request
open HttpWire.Field HeaderMap

theorem mem_placeField {f g : String × String} {fields : List (String × String)} :
    g ∈ placeField f fields ↔ g = f ∨ g ∈ fields := by
  induction fields with
  | nil => rw [placeField, List.mem_singleton, or_iff_left (List.not_mem_nil)]
  | cons h fields ih =>
    rw [placeField]
    split
    · rw [List.mem_cons]
    · rw [List.mem_cons, List.mem_cons, ih]
      exact or_left_comm

theorem sorted_placeField {f : String × String} {fields : List (String × String)}
    (h : Sorted fields) : Sorted (placeField f fields) := by
  induction fields with
  | nil => exact List.pairwise_singleton _ _
  | cons g fields ih =>
    obtain ⟨hg, hfields⟩ := List.pairwise_cons.1 h
    rw [placeField]
    split
    · rename_i hle
      refine List.pairwise_cons.2 ⟨fun g' hg' => ?_, h⟩
      cases List.mem_cons.1 hg' with
      | inl heq => exact heq ▸ hle
      | inr hin => exact String.le_trans hle (hg g' hin)
    · rename_i hgt
      refine List.pairwise_cons.2 ⟨fun g' hg' => ?_, ih hfields⟩
      cases mem_placeField.1 hg' with
      | inl heq =>
        rw [heq]
        exact Std.le_of_lt (String.not_le.1 hgt)
      | inr hin => exact hg g' hin

/-- A field goes before the others under its key. -/
theorem under_placeField (k : String) (f : String × String) (fields : List (String × String)) :
    under k (placeField f fields) = under k (f :: fields) := by
  induction fields with
  | nil => rfl
  | cons g fields ih =>
    rw [placeField]
    split
    · rfl
    · rename_i hgt
      by_cases hf : key f = k
      · have hg : key g ≠ k := by
          intro hg
          have hkey : key f = key g := hf.trans hg.symm
          have hle : key f ≤ key g := hkey ▸ String.le_refl _
          exact hgt hle
        rw [under_cons_of_ne hg, ih, under_cons_of_eq hf, under_cons_of_eq hf,
          under_cons_of_ne hg]
      · rw [under_cons_of_ne hf]
        by_cases hg : key g = k
        · rw [under_cons_of_eq hg, under_cons_of_eq hg, ih, under_cons_of_ne hf]
        · rw [under_cons_of_ne hg, under_cons_of_ne hg, ih, under_cons_of_ne hf]

theorem sorted_sortFields (fields : List (String × String)) : Sorted (sortFields fields) := by
  induction fields with
  | nil => exact .nil
  | cons f fields ih => exact sorted_placeField ih

/-- The fields of one key keep their order. -/
theorem under_sortFields (k : String) (fields : List (String × String)) :
    under k (sortFields fields) = under k fields := by
  induction fields with
  | nil => rfl
  | cons f fields ih =>
    show under k (placeField f (sortFields fields)) = _
    rw [under_placeField]
    by_cases hf : key f = k
    · rw [under_cons_of_eq hf, under_cons_of_eq hf, ih]
    · rw [under_cons_of_ne hf, under_cons_of_ne hf, ih]

/-- The fields that go out under a key: those derived, or else the caller's. -/
def Overrides (headers derived fields : List (String × String)) : Prop :=
  ∀ k, under k fields = if under k derived = [] then under k headers else under k derived

theorem keptFields_eq (r : Request) : r.keptFields =
    r.headers.pairs.filter fun f => !r.derivedFields.any fun d => Text.sameLetters d.1 f.1 := rfl

theorem under_keptFields (r : Request) (k : String) :
    under k r.keptFields =
      if under k r.derivedFields = [] then under k r.headers.pairs else [] := by
  rw [keptFields_eq]
  split
  · rename_i hnone
    rw [under, under, List.filter_filter]
    refine List.filter_congr fun f _ => ?_
    by_cases hf : key f = k
    · have hkept : (r.derivedFields.any fun d => Text.sameLetters d.1 f.1) = false := by
        refine List.any_eq_false.2 fun d hd hsame => ?_
        have hmem : d ∈ under k r.derivedFields :=
          mem_under.2 ⟨hd, (beq_iff_eq.1 hsame).trans hf⟩
        rw [hnone] at hmem
        exact List.not_mem_nil hmem
      rw [hkept, Bool.not_false, Bool.and_true]
    · rw [beq_false_of_ne hf, Bool.false_and]
  · rename_i hsome
    obtain ⟨d, hd⟩ := List.exists_mem_of_ne_nil _ hsome
    obtain ⟨hd, hkey⟩ := mem_under.1 hd
    refine under_eq_nil fun f hf hk => ?_
    have hdropped := (List.mem_filter.1 hf).2
    have hsame : Text.sameLetters d.1 f.1 = true := beq_iff_eq.2 (hkey.trans hk.symm)
    rw [List.any_eq_true.2 ⟨d, hd, hsame⟩] at hdropped
    simp at hdropped

theorem overrides_wireFields (r : Request) :
    Overrides r.headers.pairs r.derivedFields r.wireFields := by
  intro k
  rw [wireFields, under_sortFields, under_append, under_keptFields]
  split
  · rename_i hnone
    rw [hnone, List.append_nil]
  · rfl

/-- The fields of distinct keys, inserted one after the other. -/
theorem overrides_foldlM_insert {derived : List (String × String)} {m m' : HeaderMap}
    (hd : derived.Pairwise fun f g => key f ≠ key g)
    (h : derived.foldlM (fun m (name, value) => m.insert name value) m = .ok m') :
    Overrides m.pairs derived m'.pairs := by
  induction derived generalizing m with
  | nil =>
    obtain rfl : m = m' := by simpa [pure, Except.pure] using h
    exact fun k => rfl
  | cons d derived ih =>
    obtain ⟨hne, hd⟩ := List.pairwise_cons.1 hd
    cases hins : m.insert d.1 d.2 with
    | error p => simp [hins, bind, Except.bind] at h
    | ok u =>
      have hrest : derived.foldlM (fun m (name, value) => m.insert name value) u = .ok m' := by
        simpa [hins, bind, Except.bind] using h
      intro k
      rw [ih hd hrest k, under_insert hins k]
      by_cases hk : key d = k
      · have hnil : under k derived = [] :=
          under_eq_nil fun f hf hf' => hne f hf (hk.trans hf'.symm)
        have hlower : Text.lower d.1 = k := hk
        rw [under_cons_of_eq hk, hnil, if_pos rfl, if_pos hlower, if_neg (List.cons_ne_nil _ _)]
      · have hlower : ¬ Text.lower d.1 = k := hk
        rw [under_cons_of_ne hk, if_neg hlower]

theorem Overrides.eq {headers derived fields gs : List (String × String)}
    (hf : Overrides headers derived fields) (hg : Overrides headers derived gs)
    (hfs : Sorted fields) (hgs : Sorted gs) : fields = gs :=
  hfs.eq_of_under_eq hgs fun k => (hf k).trans (hg k).symm

theorem pairwise_derivedFields (r : Request) :
    r.derivedFields.Pairwise fun f g => key f ≠ key g := by
  unfold derivedFields
  split
  · exact List.pairwise_singleton _ _
  · cases Body.length _ <;> simp [key] <;> decide +kernel

end HttpWire.Request
