import HttpWire.Proofs.Octets.LineEnds
import HttpWire.Proofs.Request.Building
import HttpWire.Proofs.Request.Packets

/-! The head of a request is the lines it was given and no others, whatever texts a caller has put
into the request. -/
namespace HttpWire

theorem Method.lt_of_mem_name (m : Method) : ∀ c ∈ m.name.toList, 0x20 < c.toNat := by
  intro c hc
  have h := m.isToken
  rw [Field.isToken, Bool.and_eq_true] at h
  exact (Field.bounds_of_isTokenChar (List.all_eq_true.1 h.2 c hc)).1

namespace Request
open PacketStream

/-- The request line without its end. -/
def requestText (r : Request) : Octets :=
  Octets.ofText r.method.name ++ 32 :: Octets.ofText r.uri.requestTarget ++
    Octets.ofText " HTTP/1.1"

/-- A header line without its end. -/
def fieldText (field : String × String) : String := field.1 ++ ": " ++ field.2

/-- The header line that is sent for this field. -/
structure IsFieldLine (f : String × String) (packet : Octets) : Prop where
  packet_eq : packet = Octets.ofLatin1 (fieldText f) ++ Octets.crlf
  /-- Each character has an octet of its own, and no question mark is sent in its place. -/
  lt_of_mem : ∀ c ∈ (fieldText f).toList, c.toNat < 256
  /-- The first colon is the one behind the name. -/
  splitFirst?_eq : Text.splitFirst? ':' (fieldText f).toList = some (f.1.toList, ' ' :: f.2.toList)
  isToken : Field.isToken f.1 = true
  isValue : Field.isValue f.2 = true

theorem isValue_fieldText {f : String × String} (h : Field.problem? f.1 f.2 = none) :
    Field.isValue (fieldText f) = true := by
  obtain ⟨hname, hvalue⟩ := Field.problem?_eq_none_iff.1 h
  have hcolon : Field.isValue ": " = true := by decide +kernel
  rw [fieldText, Field.isValue_append, Field.isValue_append, Field.isValue_of_isToken hname, hcolon,
    hvalue]
  rfl

theorem splitFirst?_fieldText {f : String × String} (h : Field.problem? f.1 f.2 = none) :
    Text.splitFirst? ':' (fieldText f).toList = some (f.1.toList, ' ' :: f.2.toList) := by
  have hname := (Bool.and_eq_true_iff.1 (Field.problem?_eq_none_iff.1 h).1).2
  have hcolon : ':' ∉ f.1.toList := fun hc =>
    Field.ne_of_isTokenChar (List.all_eq_true.1 hname _ hc) (by decide) rfl
  have htext : (fieldText f).toList = f.1.toList ++ ':' :: (' ' :: f.2.toList) := by
    simp [fieldText]
  rw [htext]
  exact Text.splitFirst?_append hcolon _

theorem isFieldLine_fieldLine {f : String × String} (h : Field.problem? f.1 f.2 = none) :
    IsFieldLine f (fieldLine f) := by
  obtain ⟨hname, hvalue⟩ := Field.problem?_eq_none_iff.1 h
  have hchars := List.all_eq_true.1 (isValue_fieldText h)
  constructor
  · rfl
  · exact fun c hc => (Field.bounds_of_isValueChar (hchars c hc)).1
  · exact splitFirst?_fieldText h
  · exact hname
  · exact hvalue

theorem clean_requestText (r : Request) : 13 ∉ r.requestText ∧ 10 ∉ r.requestText := by
  have hname {o : UInt8} := Octets.not_mem_ofText r.method.lt_of_mem_name (o := o)
  have htarget {o : UInt8} := Octets.not_mem_ofText r.uri.lt_of_mem_requestTarget (o := o)
  have hversion : 13 ∉ Octets.ofText " HTTP/1.1" ∧ 10 ∉ Octets.ofText " HTTP/1.1" := by
    decide +kernel
  simp only [requestText, List.mem_append, List.mem_cons, not_or]
  exact ⟨⟨⟨hname (by decide), by decide, htarget (by decide)⟩, hversion.1⟩,
    ⟨hname (by decide), by decide, htarget (by decide)⟩, hversion.2⟩

/-- The two spaces of a request line are those around its target. -/
theorem count_requestLine (r : Request) : r.requestLine.count 32 = 2 := by
  have hname := Octets.not_mem_ofText r.method.lt_of_mem_name (o := 32) (by decide)
  have htarget := Octets.not_mem_ofText r.uri.lt_of_mem_requestTarget (o := 32) (by decide)
  have hversion : (Octets.ofText " HTTP/1.1").count 32 = 1 := by decide +kernel
  have hcrlf : Octets.crlf.count 32 = 0 := by decide
  rw [requestLine, List.count_append, List.count_append, List.count_append, List.count_cons_self,
    List.count_eq_zero_of_not_mem hname, List.count_eq_zero_of_not_mem htarget, hversion, hcrlf]

theorem problem?_of_mem_wireFields {d : Draft} {r : Request} (h : d.build = .ok r)
    {f : String × String} (hf : f ∈ r.wireFields) : Field.problem? f.1 f.2 = none := by
  obtain ⟨m, -, hpairs⟩ := exists_effectiveHeaders h
  rw [hpairs] at hf
  exact HeaderMap.problem?_of_mem_pairs hf

/-- The head without the ends of its lines. -/
def headTexts (r : Request) : List Octets :=
  r.requestText :: r.wireFields.map fun f => Octets.ofLatin1 (fieldText f)

theorem flatten_map_fieldLine (fields : List (String × String)) : (fields.map fieldLine).flatten =
    Octets.terminated (fields.map fun f => Octets.ofLatin1 (fieldText f)) := by
  rw [Octets.terminated, List.flatMap_map]
  rfl

theorem flatten_headPackets (r : Request) :
    r.headPackets.flatten = Octets.terminated r.headTexts ++ Octets.crlf := by
  rw [headPackets, List.flatten_append, List.flatten_cons, flatten_map_fieldLine, headTexts,
    Octets.terminated_cons, requestLine, requestText]
  simp only [List.append_assoc, List.cons_append, List.flatten_cons, List.flatten_nil,
    List.append_nil]

/-- A request goes out with this request line and these header lines, and they hold no line ends but
their own. -/
structure SentAs (r : Request) (line : Octets) (fields : List Octets) : Prop where
  answers_eq : (answers r.encode).1 =
    (line :: fields ++ [Octets.crlf]).map (fun p => some (.ok p)) ++ r.bodyAnswers
  isLine : ∀ p ∈ line :: fields ++ [Octets.crlf], Octets.IsLine p
  /-- Whatever follows the head, the first blank line ends with it. -/
  firstBlankAt : ∀ rest,
    ∃ i, Octets.FirstBlankAt ((line :: fields ++ [Octets.crlf]).flatten ++ rest) i ∧
      i + 4 = (line :: fields ++ [Octets.crlf]).flatten.length
  count_space : line.count 32 = 2
  isFieldLine : List.Forall₂ IsFieldLine r.wireFields fields

theorem sentAs_of_build {method : Method} {uri : Uri} {steps : List Draft.Step} {r : Request}
    (h : (steps.foldl Draft.apply (.new method uri)).build = .ok r) :
    ∃ line fields, r.SentAs line fields := by
  have hfields (f : String × String) (hf : f ∈ r.wireFields) := problem?_of_mem_wireFields h hf
  refine ⟨r.requestLine, r.wireFields.map fieldLine, ?_⟩
  constructor
  · exact answers_encode r
  · intro p hp
    cases List.mem_append.1 hp with
    | inl hp =>
      obtain rfl | hp := List.mem_cons.1 hp
      · exact ⟨r.requestText, rfl, clean_requestText r⟩
      · obtain ⟨f, hf, rfl⟩ := List.mem_map.1 hp
        exact ⟨_, rfl, Octets.clean_ofLatin1 (isValue_fieldText (hfields f hf))⟩
    | inr hp =>
      obtain rfl := List.mem_singleton.1 hp
      exact ⟨[], rfl, List.not_mem_nil, List.not_mem_nil⟩
  · intro rest
    have htexts : ∀ l ∈ r.headTexts, l ≠ [] ∧ 13 ∉ l := by
      intro l hl
      obtain rfl | hl := List.mem_cons.1 hl
      · exact ⟨by simp [requestText], (clean_requestText r).1⟩
      · obtain ⟨f, hf, rfl⟩ := List.mem_map.1 hl
        refine ⟨?_, (Octets.clean_ofLatin1 (isValue_fieldText (hfields f hf))).1⟩
        simp [Octets.ofLatin1, fieldText]
    obtain ⟨i, hi, hlen⟩ := Octets.firstBlankAt_terminated htexts rest
    have hflat := flatten_headPackets r
    rw [headPackets] at hflat
    refine ⟨i, ?_, ?_⟩
    · rw [hflat, List.append_assoc]
      exact hi
    · rw [hflat, List.length_append, headTexts, ← hlen]
      rfl
  · exact count_requestLine r
  · rw [List.forall₂_map_right_iff, List.forall₂_same]
    exact fun f hf => isFieldLine_fieldLine (hfields f hf)

/-- A value with a colon in it, and a body. -/
theorem sentAs_of_build_post :
    let uri : Uri :=
      ⟨some "http", some "h", "/", none, by decide +kernel, by decide +kernel, by simp⟩
    let steps : List Draft.Step := [.header "X-Note" "a: b", .body (.inMemory (.ofText "ok"))]
    ∃ r line fields, (steps.foldl Draft.apply (.new .post uri)).build = .ok r ∧
      r.SentAs line fields := by
  intro uri steps
  have hsome : (steps.foldl Draft.apply (.new .post uri)).build.toOption.isSome = true := by
    decide +kernel
  cases hbuild : (steps.foldl Draft.apply (.new .post uri)).build with
  | error e => simp [hbuild, Except.toOption] at hsome
  | ok r =>
    obtain ⟨line, fields, hsent⟩ := sentAs_of_build hbuild
    exact ⟨r, line, fields, rfl, hsent⟩

end Request
end HttpWire
