import HttpWire.Proofs.Header.Pairs
import HttpWire.Proofs.Request.Lines

/-! The length that the head of a request announces, and the octets that follow the head. -/
namespace HttpWire.Request
open Octets PacketStream HeaderMap
open HttpWire.Field (under key problem? problem?_eq_none_iff)

/-- The value of a header line for the length of the body, whatever the casing of its name. -/
def lengthOf? (line : Octets) : Option String :=
  match Text.splitFirst? ':' (latin1 line).toList with
  | none => none
  | some (name, value) =>
    if Text.sameLetters "Content-Length" (String.ofList name) then
      some (trimmedValue (String.ofList value))
    else none

/-- What a request puts on the wire: lines, the first blank line, and the octets of its body. -/
structure Emits (r : Request) (line : Octets) (fields : List Octets) (body : Octets) : Prop where
  wire_eq : r.wire = terminated (line :: fields) ++ (crlf ++ body)
  clean : ∀ l ∈ line :: fields, l ≠ [] ∧ 13 ∉ l ∧ 10 ∉ l
  ended : (answers r.encode).1.getLast? = some (some (.ok []))

/-- What the lines say about the length of the octets that follow the head. Where there is no body,
they say what the caller has set. -/
structure Announces (r : Request) (fields : List Octets) (body : Octets) : Prop where
  of_body : r.body.isSome = true → fields.filterMap lengthOf? = [toString body.length]
  of_none : r.body = none → body = [] ∧
    fields.filterMap lengthOf? = (r.headers.getAll "Content-Length").map trimmedValue

theorem Emits.unique {r : Request} {line line' : Octets} {fields fields' : List Octets}
    {body body' : Octets} (h : r.Emits line fields body) (h' : r.Emits line' fields' body') :
    line :: fields = line' :: fields' ∧ body = body' := by
  refine terminated_append_inj ?_ ?_ (h.wire_eq.symm.trans h'.wire_eq)
  · exact fun l hl => ⟨(h.clean l hl).1, (h.clean l hl).2.1⟩
  · exact fun l hl => ⟨(h'.clean l hl).1, (h'.clean l hl).2.1⟩

theorem trimmedValue_cons_space (value : List Char) :
    trimmedValue (String.ofList (' ' :: value)) = trimmedValue (String.ofList value) := by
  rw [trimmedValue, trimmedValue, String.toList_ofList, String.toList_ofList]
  exact congrArg String.ofList (Text.trim_eq_iff.2 ((Text.trim_eq_iff.1 rfl).cons rfl))

theorem lengthOf?_fieldText {f : String × String} (h : problem? f.1 f.2 = none) :
    lengthOf? (ofLatin1 (fieldText f)) =
      if key f = Text.lower "Content-Length" then some (trimmedValue f.2) else none := by
  rw [lengthOf?, latin1_ofLatin1 (isValue_fieldText h), splitFirst?_fieldText h]
  dsimp only
  rw [trimmedValue_cons_space, String.ofList_toList, String.ofList_toList]
  by_cases hkey : key f = Text.lower "Content-Length"
  · have hsame : Text.sameLetters "Content-Length" f.1 = true := beq_iff_eq.2 hkey.symm
    rw [if_pos hsame, if_pos hkey]
  · have hother : ¬ Text.sameLetters "Content-Length" f.1 = true :=
      fun hsame => hkey (beq_iff_eq.1 hsame).symm
    rw [if_neg hother, if_neg hkey]

/-- The lengths announced by these fields are the values under their common key. -/
theorem filterMap_lengthOf? {fields : List (String × String)}
    (h : ∀ f ∈ fields, problem? f.1 f.2 = none) :
    (fields.map fun f => ofLatin1 (fieldText f)).filterMap lengthOf? =
      ((under (Text.lower "Content-Length") fields).map Prod.snd).map trimmedValue := by
  induction fields with
  | nil => rfl
  | cons f fields ih =>
    obtain ⟨hf, hfields⟩ := List.forall_mem_cons.1 h
    rw [List.map_cons, List.filterMap_cons, lengthOf?_fieldText hf, ih hfields]
    by_cases hkey : key f = Text.lower "Content-Length"
    · rw [if_pos hkey, Field.under_cons_of_eq hkey]
      rfl
    · rw [if_neg hkey, Field.under_cons_of_ne hkey]

theorem map_snd_under_pairs (m : HeaderMap) (name : String) :
    (under (Text.lower name) m.pairs).map Prod.snd = m.getAll name := by
  rw [pairs, under_flatMap_pairs m.sorted, getAll, HeaderMap.entry?]
  cases m.entries.find? (·.key == Text.lower name) with
  | none => rfl
  | some e =>
    show (e.values.map (e.name, ·)).map Prod.snd = e.values
    rw [List.map_map]
    exact List.map_id e.values

theorem trimmedValue_toString (n : Nat) : trimmedValue (toString n) = toString n := by
  have hrepr : toString n = String.ofList (Nat.toDigits 10 n) := Nat.repr_eq_ofList_toDigits
  have hblank : ∀ c ∈ Nat.toDigits 10 n, Text.isSpaceOrTab c = false := by
    intro c hc
    have hdigit := Nat.isDigit_of_mem_toDigits (by decide) (by decide) hc
    have hspace : c ≠ ' ' := by
      rintro rfl
      exact Bool.false_ne_true hdigit
    have htab : c ≠ '\t' := by
      rintro rfl
      exact Bool.false_ne_true hdigit
    rw [Text.isSpaceOrTab, beq_false_of_ne hspace, beq_false_of_ne htab]
    rfl
  rw [trimmedValue, hrepr, String.toList_ofList]
  exact congrArg String.ofList (Text.trim_eq_iff.2 (Text.trimmed_self hblank))

section Built
variable {d : Draft} {r : Request} {packets : List Octets}

theorem clean_headTexts (h : d.build = .ok r) :
    ∀ l ∈ r.headTexts, l ≠ [] ∧ 13 ∉ l ∧ 10 ∉ l := by
  intro l hl
  obtain rfl | hl := List.mem_cons.1 hl
  · exact ⟨by simp [requestText], clean_requestText r⟩
  · obtain ⟨f, hf, rfl⟩ := List.mem_map.1 hl
    refine ⟨?_, clean_ofLatin1 (isValue_fieldText (problem?_of_mem_wireFields h hf))⟩
    simp [ofLatin1, fieldText]

/-- The octets after the head are those that the body is pulled for. -/
theorem emits_of_build (h : d.build = .ok r)
    (hbody : r.bodyAnswers = packets.map (fun p => some (.ok p)) ++ [some (.ok [])]) :
    r.Emits r.requestText (r.wireFields.map fun f => ofLatin1 (fieldText f)) packets.flatten := by
  constructor
  · have hend : handedOut [some (.ok [])] = [] := rfl
    rw [wire, answers_encode, hbody, handedOut_append, handedOut_append, handedOut_packets,
      handedOut_packets, flatten_headPackets, hend, List.append_nil, List.append_assoc, headTexts]
  · exact clean_headTexts h
  · rw [answers_encode, hbody, ← List.append_assoc, List.getLast?_concat]

theorem lengths_of_build (h : d.build = .ok r) :
    (r.wireFields.map fun f => ofLatin1 (fieldText f)).filterMap lengthOf? =
      if under (Text.lower "Content-Length") r.derivedFields = [] then
        (r.headers.getAll "Content-Length").map trimmedValue
      else
        ((under (Text.lower "Content-Length") r.derivedFields).map Prod.snd).map trimmedValue := by
  rw [filterMap_lengthOf? fun f hf => problem?_of_mem_wireFields h hf, overrides_wireFields r]
  split
  · rw [map_snd_under_pairs]
  · rfl

end Built

section Derived
variable {d : Draft} {r : Request}

theorem key_host_ne (value : String) : key ("Host", value) ≠ Text.lower "Content-Length" := by
  show Text.lower "Host" ≠ _
  decide +kernel

theorem key_contentType_ne (value : String) :
    key ("Content-Type", value) ≠ Text.lower "Content-Length" := by
  show Text.lower "Content-Type" ≠ _
  decide +kernel

theorem under_derivedFields_of_none (h : r.body = none) :
    under (Text.lower "Content-Length") r.derivedFields = [] := by
  rw [derivedFields, h]
  exact Field.under_cons_of_ne (key_host_ne _) []

theorem under_derivedFields_of_some {body : Body} {n : Nat} (h : r.body = some body)
    (hn : body.length = some n) :
    under (Text.lower "Content-Length") r.derivedFields = [("Content-Length", toString n)] := by
  have hfields : r.derivedFields = [("Host", r.uri.hostAndPort), ("Content-Length", toString n),
      ("Content-Type", body.mediaType.render)] := by
    rw [derivedFields, h]
    dsimp only
    rw [hn]
    rfl
  have hkey : key ("Content-Length", toString n) = Text.lower "Content-Length" := rfl
  rw [hfields, Field.under_cons_of_ne (key_host_ne _), Field.under_cons_of_eq hkey,
    Field.under_cons_of_ne (key_contentType_ne _)]
  rfl

theorem exists_announces_of_build (h : d.build = .ok r)
    (hbody : ∀ body, r.body = some body → ∃ b, body = .inMemory b) :
    ∃ packets : List Octets,
      r.bodyAnswers = packets.map (fun p => some (.ok p)) ++ [some (.ok [])] ∧
      r.Announces (r.wireFields.map fun f => ofLatin1 (fieldText f)) packets.flatten := by
  cases hb : r.body with
  | none =>
    have hanswers : r.bodyAnswers = [some (.ok [])] := by rw [bodyAnswers, hb]
    refine ⟨[], hanswers, ?_⟩
    constructor
    · intro hsome
      simp [hb] at hsome
    · intro
      rw [lengths_of_build h, if_pos (under_derivedFields_of_none hb)]
      exact ⟨rfl, rfl⟩
  | some body =>
    obtain ⟨b, rfl⟩ := hbody body hb
    obtain ⟨packets, hanswers, hflatten⟩ := b.exists_answers_open_eq
    have hopen : r.bodyAnswers = (answers (Body.inMemory b).open).1 := by rw [bodyAnswers, hb]
    refine ⟨packets, hopen.trans hanswers, ?_⟩
    constructor
    · intro
      rw [lengths_of_build h, under_derivedFields_of_some hb rfl, if_neg (List.cons_ne_nil _ _),
        hflatten]
      exact congrArg (fun value => [value]) (trimmedValue_toString b.content.length)
    · intro hnone
      simp [hb] at hnone

end Derived

/-- A body held in memory is announced once, with the number of octets that follow the head. Where
there is no body nothing follows, and the lengths are those that the caller has set. -/
theorem announces_of_build {d : Draft} {r : Request} (h : d.build = .ok r)
    (hbody : ∀ body, r.body = some body → ∃ b, body = .inMemory b) :
    (∃ line fields body, r.Emits line fields body) ∧
      ∀ line fields body, r.Emits line fields body → r.Announces fields body := by
  obtain ⟨packets, hanswers, hannounces⟩ := exists_announces_of_build h hbody
  have hemits := emits_of_build h hanswers
  refine ⟨⟨_, _, _, hemits⟩, fun line fields body hemits' => ?_⟩
  obtain ⟨hlines, rfl⟩ := hemits.unique hemits'
  obtain ⟨-, rfl⟩ := List.cons.inj hlines
  exact hannounces

/-- The caller's own length, in another casing, gives way to that of the body. -/
theorem announces_of_build_post :
    let uri : Uri :=
      ⟨some "http", some "example", "/submit", some "s", by decide +kernel, by decide +kernel,
        by decide +kernel⟩
    let d := Draft.withBody ((Draft.new .post uri).header "content-length" "999")
      (.inMemory (.ofText "ok"))
    ∃ r line fields body, d.build = .ok r ∧
      (∀ body, r.body = some body → ∃ b, body = .inMemory b) ∧ r.Emits line fields body ∧
      fields.filterMap lengthOf? = [toString body.length] := by
  intro uri d
  have hsome : d.build.toOption.isSome = true := by decide +kernel
  cases hbuild : d.build with
  | error e => simp [hbuild, Except.toOption] at hsome
  | ok r =>
    obtain ⟨-, rfl⟩ := Draft.build_eq_ok_iff.1 hbuild
    have hbody : d.body = some (.inMemory (.ofText "ok")) := rfl
    have hfull : ∀ body, d.body = some body → ∃ b, body = .inMemory b := by
      intro body h
      exact ⟨_, Option.some.inj (h.symm.trans hbody)⟩
    obtain ⟨⟨line, fields, body, hemits⟩, hannounces⟩ := announces_of_build hbuild hfull
    have hlengths := (hannounces line fields body hemits).of_body (by rw [hbody]; rfl)
    exact ⟨_, line, fields, body, rfl, hfull, hemits, hlengths⟩

/-- Without a body the caller's own length goes out as it is, and nothing comes after the head. -/
theorem exists_length_ne_of_build :
    let uri : Uri :=
      ⟨some "http", some "host", "/count", some "c", by decide +kernel, by decide +kernel,
        by decide +kernel⟩
    let d := (Draft.new .get uri).header "Content-Length" "5"
    ∃ r line fields body, d.build = .ok r ∧ r.body = none ∧ r.Emits line fields body ∧
      ¬ ∀ value ∈ fields.filterMap lengthOf?, value = toString body.length := by
  intro uri d
  have hsome : d.build.toOption.isSome = true := by decide +kernel
  cases hbuild : d.build with
  | error e => simp [hbuild, Except.toOption] at hsome
  | ok r =>
    obtain ⟨-, rfl⟩ := Draft.build_eq_ok_iff.1 hbuild
    have hbody : d.body = none := rfl
    have hanswers : bodyAnswers ⟨d.method, d.uri, d.headers, d.body⟩ =
        ([] : List Octets).map (fun p => some (.ok p)) ++ [some (.ok [])] := rfl
    have hemits := emits_of_build hbuild hanswers
    refine ⟨_, _, _, _, rfl, hbody, hemits, fun hall => ?_⟩
    have hset : (d.headers.getAll "Content-Length").map trimmedValue = ["5"] := by decide +kernel
    have hlengths := lengths_of_build hbuild
    rw [if_pos (under_derivedFields_of_none hbody), hset] at hlengths
    rw [hlengths] at hall
    have hzero : "5" = toString 0 := hall "5" List.mem_cons_self
    exact absurd hzero (by decide +kernel)

end HttpWire.Request
