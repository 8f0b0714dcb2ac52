import HttpWire.Proofs.Request.Fields
import HttpWire.Proofs.Uri.Characters

/-! The derived fields of a request that was built are valid. Inserted into the caller's map, they
give the fields that are sent. -/
namespace HttpWire.Request
open HttpWire.Field

/-- What a draft must pass to be built. -/
structure Draft.Passes (d : Draft) : Prop where
  refused : d.refused = none
  allowsBody : d.body.isSome = true → d.method.allowsBody = true
  scheme : knownScheme d.uri = true
  host : hasHost d.uri = true
  mediaType : d.body.bind mediaTypeProblem? = none

theorem Draft.build_eq_ok_iff {d : Draft} {r : Request} :
    d.build = .ok r ↔ d.Passes ∧ r = ⟨d.method, d.uri, d.headers, d.body⟩ := by
  constructor
  · intro h
    unfold build at h
    split at h
    · simp at h
    rename_i hrefused
    split at h
    · simp at h
    rename_i hallows
    split at h
    · simp at h
    rename_i hscheme
    split at h
    · simp at h
    rename_i hhost
    split at h
    · simp at h
    rename_i hmedia
    refine ⟨⟨hrefused, ?_, by simpa using hscheme, by simpa using hhost, hmedia⟩, ?_⟩
    · simpa using hallows
    · exact (Except.ok.inj h).symm
  · rintro ⟨h, rfl⟩
    have hallows : ¬ (d.body.isSome && !d.method.allowsBody) = true := by simpa using h.allowsBody
    rw [build, h.refused]
    dsimp only
    rw [if_neg hallows, if_neg (by simp [h.scheme]), if_neg (by simp [h.host]), h.mediaType]

theorem isValue_mediaType {d : Draft} {r : Request} {body : Body} (h : d.build = .ok r)
    (hb : r.body = some body) : isValue body.mediaType.render = true := by
  obtain ⟨hpasses, rfl⟩ := Draft.build_eq_ok_iff.1 h
  have hmedia := hpasses.mediaType
  rw [show d.body = some body from hb, Option.bind_some, Draft.mediaTypeProblem?] at hmedia
  split at hmedia
  · assumption
  · simp at hmedia

theorem problem?_of_mem_derivedFields {d : Draft} {r : Request} (h : d.build = .ok r)
    {f : String × String} (hf : f ∈ r.derivedFields) : problem? f.1 f.2 = none := by
  have hhost : problem? "Host" r.uri.hostAndPort = none :=
    problem?_eq_none_iff.2 ⟨by decide +kernel, r.uri.isValue_hostAndPort⟩
  unfold derivedFields at hf
  cases hb : r.body with
  | none =>
    rw [hb] at hf
    obtain rfl := List.mem_singleton.1 hf
    exact hhost
  | some body =>
    rw [hb] at hf
    obtain rfl | hf := List.mem_cons.1 hf
    · exact hhost
    obtain hf | hf := List.mem_append.1 hf
    · obtain ⟨n, -, rfl⟩ := Option.map_eq_some_iff.1 (Option.mem_toList.1 hf)
      have hname : isToken "Content-Length" = true := by decide +kernel
      exact problem?_eq_none_iff.2 ⟨hname, isValue_toString n⟩
    · obtain rfl := List.mem_singleton.1 hf
      have hname : isToken "Content-Type" = true := by decide +kernel
      exact problem?_eq_none_iff.2 ⟨hname, isValue_mediaType h hb⟩

/-- The caller's map with the host and, if there is a body, with its length and its type. -/
def effectiveHeaders (r : Request) : Except Problem HeaderMap := do
  let m ← r.headers.insert "Host" r.uri.hostAndPort
  match r.body with
  | none => pure m
  | some body =>
    let m ← match body.length with
      | none => pure m
      | some n => m.insert "Content-Length" (toString n)
    m.insert "Content-Type" body.mediaType.render

theorem effectiveHeaders_eq_foldlM (r : Request) : r.effectiveHeaders =
    r.derivedFields.foldlM (fun m (name, value) => m.insert name value) r.headers := by
  unfold effectiveHeaders derivedFields
  cases r.body with
  | none => simp
  | some body => cases hlength : body.length <;> simp [hlength]

theorem exists_foldlM_insert {derived : List (String × String)} (m : HeaderMap)
    (h : ∀ f ∈ derived, problem? f.1 f.2 = none) :
    ∃ m', derived.foldlM (fun m (name, value) => m.insert name value) m = .ok m' := by
  induction derived generalizing m with
  | nil => exact ⟨m, rfl⟩
  | cons d derived ih =>
    obtain ⟨u, hu⟩ := HeaderMap.exists_insert (m := m) (h d List.mem_cons_self)
    obtain ⟨m', hm'⟩ := ih u fun f hf => h f (List.mem_cons_of_mem _ hf)
    refine ⟨m', ?_⟩
    rw [List.foldlM_cons]
    simpa [hu, bind, Except.bind] using hm'

/-- The fields that are sent are those of the ordered map, in its order. -/
theorem exists_effectiveHeaders {d : Draft} {r : Request} (h : d.build = .ok r) :
    ∃ m, r.effectiveHeaders = .ok m ∧ r.wireFields = m.pairs := by
  obtain ⟨m, hm⟩ := exists_foldlM_insert r.headers fun f hf => problem?_of_mem_derivedFields h hf
  refine ⟨m, (effectiveHeaders_eq_foldlM r).trans hm, ?_⟩
  -- both lists are sorted and hold the same fields under each key
  exact (overrides_wireFields r).eq (overrides_foldlM_insert (pairwise_derivedFields r) hm)
    (sorted_sortFields _) m.sorted_pairs

end HttpWire.Request
