import HttpWire.Proofs.Header.Equality
import HttpWire.Proofs.Request.Derived

/-! What the steps of putting a request together come to. The first field that is refused decides,
whatever comes after it. Without one, the last body and the last headers count, with the fields
added since. -/
namespace HttpWire.Request.Draft
open HttpWire.Field

/-- A step in the making of a request. -/
inductive Step
  | header (name value : String)
  | headers (map : HeaderMap)
  | body (body : Body)

/-- A draft after one more step. -/
def apply (d : Draft) : Step → Draft
  | .header name value => d.header name value
  | .headers map => d.withHeaders map
  | .body body => d.withBody body

/-- The draft after these steps. -/
def following (method : Method) (uri : Uri) (steps : List Step) : Draft :=
  steps.foldl apply (new method uri)

namespace Step

def field? : Step → Option (String × String)
  | .header name value => some (name, value)
  | _ => none

def headers? : Step → Option HeaderMap
  | .headers m => some m
  | _ => none

def body? : Step → Option Body
  | .body b => some b
  | _ => none

/-- Why the field of a step is refused. -/
def problem? (s : Step) : Option Problem := s.field?.bind fun f => Field.problem? f.1 f.2

end Step

/-- The last body that was set. -/
def lastBody? (steps : List Step) : Option Body := (steps.filterMap Step.body?).getLast?

/-- The last headers that were set. There are none to begin with. -/
def lastHeaders (steps : List Step) : HeaderMap :=
  (steps.filterMap Step.headers?).getLast?.getD .empty

/-- The fields added since headers were last set. -/
def fieldsSince (steps : List Step) : List (String × String) :=
  (steps.rtakeWhile fun s => s.headers?.isNone).filterMap Step.field?

def FieldsValid (steps : List Step) : Prop :=
  ∀ name value, .header name value ∈ steps → isToken name = true ∧ isValue value = true

/-- A body was set, and the method is one that carries none. -/
def BodyRefused (method : Method) (steps : List Step) : Prop :=
  lastBody? steps ≠ none ∧
    method.name ∈ ["GET", "HEAD", "DELETE", "CONNECT", "OPTIONS", "TRACE"]

def SchemeKnown (uri : Uri) : Prop := uri.scheme = some "http" ∨ uri.scheme = some "https"

def HostMissing (uri : Uri) : Prop := uri.host = none ∨ uri.host = some ""

/-- What a request comes to, told by the steps. The checks come in this order. -/
inductive Builds (method : Method) (uri : Uri) (steps : List Step) : Except Error Request → Prop
  | invalidName {before after : List Step} {name value : String}
    (split : steps = before ++ .header name value :: after) (valid : FieldsValid before)
    (fault : isToken name = false) : Builds method uri steps (.error (.field (.invalidName name)))
  | invalidValue {before after : List Step} {name value : String}
    (split : steps = before ++ .header name value :: after) (valid : FieldsValid before)
    (token : isToken name = true) (fault : isValue value = false) :
    Builds method uri steps (.error (.field (.invalidValue name value)))
  | bodyNotAllowed (valid : FieldsValid steps) (fault : BodyRefused method steps) :
    Builds method uri steps (.error (.bodyNotAllowed method))
  | invalidScheme (valid : FieldsValid steps) (allowed : ¬ BodyRefused method steps)
    (fault : ¬ SchemeKnown uri) : Builds method uri steps (.error .invalidScheme)
  | missingHost (valid : FieldsValid steps) (allowed : ¬ BodyRefused method steps)
    (scheme : SchemeKnown uri) (fault : HostMissing uri) :
    Builds method uri steps (.error .missingHost)
  | invalidMediaType {body : Body} (valid : FieldsValid steps)
    (allowed : ¬ BodyRefused method steps) (scheme : SchemeKnown uri) (host : ¬ HostMissing uri)
    (set : lastBody? steps = some body) (fault : isValue body.mediaType.render = false) :
    Builds method uri steps
      (.error (.field (.invalidValue "Content-Type" body.mediaType.render)))
  | built {headers : HeaderMap} (valid : FieldsValid steps) (allowed : ¬ BodyRefused method steps)
    (scheme : SchemeKnown uri) (host : ¬ HostMissing uri)
    (mediaType : ∀ body, lastBody? steps = some body → isValue body.mediaType.render = true)
    (headers_eq : (lastHeaders steps).appendAll (fieldsSince steps) = .ok headers) :
    Builds method uri steps (.ok ⟨method, uri, headers, lastBody? steps⟩)

section Concat
variable (steps : List Step)

theorem lastBody?_concat (s : Step) : lastBody? (steps ++ [s]) = s.body?.or (lastBody? steps) := by
  rw [lastBody?, List.filterMap_append, List.getLast?_append]
  cases s <;> rfl

theorem lastHeaders_concat (s : Step) :
    lastHeaders (steps ++ [s]) = s.headers?.getD (lastHeaders steps) := by
  rw [lastHeaders, List.filterMap_append, List.getLast?_append]
  cases s <;> rfl

theorem fieldsSince_concat_headers (m : HeaderMap) : fieldsSince (steps ++ [.headers m]) = [] := by
  rw [fieldsSince, List.rtakeWhile_concat_neg _ _ _ (by simp [Step.headers?])]
  rfl

theorem fieldsSince_concat {s : Step} (h : s.headers? = none) :
    fieldsSince (steps ++ [s]) = fieldsSince steps ++ s.field?.toList := by
  rw [fieldsSince, List.rtakeWhile_concat_pos _ _ _ (by simp [h]), List.filterMap_append]
  cases s <;> rfl

end Concat

/-- How a draft stands after these steps. A field that was refused stays so. -/
structure Stands (d : Draft) (method : Method) (uri : Uri) (steps : List Step) : Prop where
  method_eq : d.method = method
  uri_eq : d.uri = uri
  refused_eq : d.refused = steps.findSome? Step.problem?
  body_eq : d.refused = none → d.body = lastBody? steps
  headers_eq : d.refused = none → (lastHeaders steps).appendAll (fieldsSince steps) = .ok d.headers

variable {d : Draft} {method : Method} {uri : Uri} {steps : List Step}

theorem apply_of_refused {p : Problem} (h : d.refused = some p) (s : Step) : d.apply s = d := by
  cases s <;> simp [apply, header, withHeaders, withBody, h]

theorem findSome?_problem?_concat (steps : List Step) (s : Step) :
    (steps ++ [s]).findSome? Step.problem? = (steps.findSome? Step.problem?).or s.problem? := by
  rw [List.findSome?_append, List.findSome?_singleton]

theorem apply_of_problem {name value : String} {p : Problem} (h : d.refused = none)
    (hp : Field.problem? name value = some p) :
    d.apply (.header name value) = { d with refused := some p } := by
  simp [apply, header, h, HeaderMap.append_of_problem hp]

theorem exists_apply_header {name value : String} (h : d.refused = none)
    (hp : Field.problem? name value = none) : ∃ m, d.headers.append name value = .ok m ∧
      d.apply (.header name value) = { d with headers := m } := by
  obtain ⟨m, hm⟩ := d.headers.exists_append hp
  exact ⟨m, hm, by simp [apply, header, h, hm]⟩

theorem Stands.apply (h : d.Stands method uri steps) (s : Step) :
    (d.apply s).Stands method uri (steps ++ [s]) := by
  have hproblem := findSome?_problem?_concat steps s
  cases hrefused : d.refused with
  | some p =>
    rw [apply_of_refused hrefused]
    refine ⟨h.method_eq, h.uri_eq, ?_, fun hnone => ?_, fun hnone => ?_⟩
    · rw [hproblem, ← h.refused_eq, hrefused]
      rfl
    · simp [hrefused] at hnone
    · simp [hrefused] at hnone
  | none =>
    have hbody := h.body_eq hrefused
    have hheaders := h.headers_eq hrefused
    rw [← h.refused_eq, hrefused, Option.none_or] at hproblem
    cases s with
    | header name value =>
      cases hp : Field.problem? name value with
      | some p =>
        rw [apply_of_problem hrefused hp]
        refine ⟨h.method_eq, h.uri_eq, ?_, fun hnone => ?_, fun hnone => ?_⟩
        · rw [hproblem]
          exact hp.symm
        · simp at hnone
        · simp at hnone
      | none =>
        obtain ⟨m, hm, happly⟩ := exists_apply_header hrefused hp
        rw [happly]
        refine ⟨h.method_eq, h.uri_eq, ?_, fun _ => ?_, fun _ => ?_⟩
        · rw [hproblem, hrefused]
          exact hp.symm
        · rw [hbody, lastBody?_concat]
          rfl
        · have hsince := fieldsSince_concat steps (s := .header name value) rfl
          rw [hsince, lastHeaders_concat]
          refine (HeaderMap.appendAll_append hheaders _).trans ?_
          exact HeaderMap.appendAll_cons hm []
    | headers m =>
      have happly : d.apply (.headers m) = { d with headers := m } := by
        simp [Draft.apply, withHeaders, hrefused]
      rw [happly]
      refine ⟨h.method_eq, h.uri_eq, ?_, fun _ => ?_, fun _ => ?_⟩
      · rw [hproblem, hrefused]
        rfl
      · rw [hbody, lastBody?_concat]
        rfl
      · rw [fieldsSince_concat_headers, lastHeaders_concat]
        rfl
    | body b =>
      have happly : d.apply (.body b) = { d with body := some b } := by
        simp [Draft.apply, withBody, hrefused]
      rw [happly]
      refine ⟨h.method_eq, h.uri_eq, ?_, fun _ => ?_, fun _ => ?_⟩
      · rw [hproblem, hrefused]
        rfl
      · rw [lastBody?_concat]
        rfl
      · rw [fieldsSince_concat steps rfl, lastHeaders_concat]
        exact (congrArg _ (List.append_nil _)).trans hheaders

theorem stands_following (method : Method) (uri : Uri) (steps : List Step) :
    (following method uri steps).Stands method uri steps := by
  induction steps using List.reverseRecOn with
  | nil => exact ⟨rfl, rfl, rfl, fun _ => rfl, fun _ => rfl⟩
  | append_singleton steps s ih =>
    rw [following, List.foldl_append]
    exact ih.apply s

theorem Step.problem?_eq_none_iff {s : Step} : s.problem? = none ↔
    ∀ name value, s = .header name value → isToken name = true ∧ isValue value = true := by
  cases s with
  | header name value =>
    refine Field.problem?_eq_none_iff.trans ⟨?_, fun h => h name value rfl⟩
    rintro h _ _ ⟨⟩
    exact h
  | headers m => simp [problem?, field?]
  | body b => simp [problem?, field?]

theorem findSome?_problem?_eq_none_iff :
    steps.findSome? Step.problem? = none ↔ FieldsValid steps := by
  rw [List.findSome?_eq_none_iff]
  constructor
  · exact fun h name value hmem => Step.problem?_eq_none_iff.1 (h _ hmem) name value rfl
  · intro h s hmem
    refine Step.problem?_eq_none_iff.2 ?_
    rintro name value rfl
    exact h name value hmem

/-- Fields are valid up to the first that is not. -/
theorem exists_first_refused (h : ¬ FieldsValid steps) : ∃ before name value after,
    steps = before ++ .header name value :: after ∧ FieldsValid before ∧
      (isToken name = true → isValue value = false) := by
  rw [← findSome?_problem?_eq_none_iff, ← ne_eq, Option.ne_none_iff_exists'] at h
  obtain ⟨p, hp⟩ := h
  obtain ⟨before, s, after, hsplit, hs, hbefore⟩ := List.findSome?_eq_some_iff.1 hp
  have hvalid : FieldsValid before :=
    findSome?_problem?_eq_none_iff.1 (List.findSome?_eq_none_iff.2 hbefore)
  cases s with
  | header name value =>
    refine ⟨before, name, value, after, hsplit, hvalid, fun htoken => ?_⟩
    by_contra hvalue
    have hnone := problem?_eq_none_iff.2 ⟨htoken, Bool.eq_true_of_not_eq_false hvalue⟩
    exact Option.some_ne_none p (hs.symm.trans hnone)
  | headers m => simp [Step.problem?, Step.field?] at hs
  | body b => simp [Step.problem?, Step.field?] at hs

section Stands
variable (h : d.Stands method uri steps)
include h

theorem Stands.refused_eq_none (hvalid : FieldsValid steps) : d.refused = none :=
  h.refused_eq.trans (findSome?_problem?_eq_none_iff.2 hvalid)

/-- Whatever steps follow. -/
theorem Stands.refused_eq_some {before after : List Step} {name value : String} {p : Problem}
    (hsplit : steps = before ++ .header name value :: after) (hvalid : FieldsValid before)
    (hp : Field.problem? name value = some p) : d.refused = some p := by
  have hbefore := List.findSome?_eq_none_iff.1 (findSome?_problem?_eq_none_iff.2 hvalid)
  refine h.refused_eq.trans (List.findSome?_eq_some_iff.2 ?_)
  exact ⟨before, .header name value, after, hsplit, hp, hbefore⟩

theorem Stands.bodyRefused_iff (hvalid : FieldsValid steps) :
    (d.body.isSome && !d.method.allowsBody) = true ↔ BodyRefused method steps := by
  rw [h.body_eq (h.refused_eq_none hvalid), h.method_eq, BodyRefused, Bool.and_eq_true,
    Option.isSome_iff_ne_none, Method.allowsBody, Bool.not_not, List.contains_iff_mem]
  rfl

end Stands

theorem knownScheme_iff : knownScheme uri = true ↔ SchemeKnown uri := by
  simp [knownScheme, SchemeKnown]

theorem hasHost_iff : hasHost uri = true ↔ ¬ HostMissing uri := by
  cases hhost : uri.host <;> simp [hasHost, HostMissing, hhost]

theorem Builds.build_eq {r : Except Error Request} (h : Builds method uri steps r) :
    (following method uri steps).build = r := by
  have hd := stands_following method uri steps
  cases h with
  | @invalidName _ _ name value split valid fault =>
    have hp : problem? name value = some (.invalidName name) := by simp [problem?, fault]
    rw [build, hd.refused_eq_some split valid hp]
  | @invalidValue _ _ name value split valid token fault =>
    have hp : problem? name value = some (.invalidValue name value) := by
      simp [problem?, token, fault]
    rw [build, hd.refused_eq_some split valid hp]
  | bodyNotAllowed valid fault =>
    rw [build, hd.refused_eq_none valid]
    dsimp only
    rw [if_pos ((hd.bodyRefused_iff valid).2 fault), hd.method_eq]
  | invalidScheme valid allowed fault =>
    rw [build, hd.refused_eq_none valid]
    dsimp only
    rw [if_neg (mt (hd.bodyRefused_iff valid).1 allowed), hd.uri_eq, if_pos]
    simpa using mt knownScheme_iff.1 fault
  | missingHost valid allowed scheme fault =>
    rw [build, hd.refused_eq_none valid]
    dsimp only
    rw [if_neg (mt (hd.bodyRefused_iff valid).1 allowed), hd.uri_eq,
      if_neg (by simp [knownScheme_iff.2 scheme]), if_pos]
    simpa using mt hasHost_iff.1 (not_not_intro fault)
  | invalidMediaType valid allowed scheme host set fault =>
    rw [build, hd.refused_eq_none valid]
    dsimp only
    rw [if_neg (mt (hd.bodyRefused_iff valid).1 allowed), hd.uri_eq,
      if_neg (by simp [knownScheme_iff.2 scheme]), if_neg (by simp [hasHost_iff.2 host]),
      hd.body_eq (hd.refused_eq_none valid), set, Option.bind_some, mediaTypeProblem?,
      if_neg (by simp [fault])]
  | @built headers valid allowed scheme host mediaType headers_eq =>
    have hrefused := hd.refused_eq_none valid
    obtain rfl : (following method uri steps).headers = headers :=
      Except.ok.inj ((hd.headers_eq hrefused).symm.trans headers_eq)
    refine build_eq_ok_iff.2 ⟨⟨hrefused, fun hset => ?_, ?_, ?_, ?_⟩, ?_⟩
    · have hallowed := mt (hd.bodyRefused_iff valid).1 allowed
      simpa [hset] using hallowed
    · rw [hd.uri_eq]
      exact knownScheme_iff.2 scheme
    · rw [hd.uri_eq]
      exact hasHost_iff.2 host
    · rw [hd.body_eq hrefused, Option.bind_eq_none_iff]
      exact fun body hset => if_pos (mediaType body hset)
    · rw [hd.method_eq, hd.uri_eq, hd.body_eq hrefused]

theorem exists_builds (method : Method) (uri : Uri) (steps : List Step) :
    ∃ r, Builds method uri steps r := by
  by_cases hvalid : FieldsValid steps
  swap
  · obtain ⟨before, name, value, after, hsplit, hbefore, hfault⟩ := exists_first_refused hvalid
    cases htoken : isToken name with
    | false => exact ⟨_, .invalidName hsplit hbefore htoken⟩
    | true => exact ⟨_, .invalidValue hsplit hbefore htoken (hfault htoken)⟩
  by_cases hallowed : BodyRefused method steps
  · exact ⟨_, .bodyNotAllowed hvalid hallowed⟩
  by_cases hscheme : SchemeKnown uri
  swap
  · exact ⟨_, .invalidScheme hvalid hallowed hscheme⟩
  by_cases hhost : HostMissing uri
  · exact ⟨_, .missingHost hvalid hallowed hscheme hhost⟩
  by_cases hmedia : ∀ body, lastBody? steps = some body → isValue body.mediaType.render = true
  · have hd := stands_following method uri steps
    have hheaders := hd.headers_eq (hd.refused_eq_none hvalid)
    exact ⟨_, .built hvalid hallowed hscheme hhost hmedia hheaders⟩
  · push Not at hmedia
    obtain ⟨body, hset, hvalue⟩ := hmedia
    have hfault := Bool.eq_false_of_not_eq_true hvalue
    exact ⟨_, .invalidMediaType hvalid hallowed hscheme hhost hset hfault⟩

/-- A draft builds what its steps come to, and nothing else. -/
theorem build_following_iff (method : Method) (uri : Uri) (steps : List Step)
    (r : Except Error Request) :
    (following method uri steps).build = r ↔ Builds method uri steps r := by
  constructor
  · rintro rfl
    obtain ⟨r, hr⟩ := exists_builds method uri steps
    rwa [hr.build_eq]
  · exact Builds.build_eq

end HttpWire.Request.Draft
