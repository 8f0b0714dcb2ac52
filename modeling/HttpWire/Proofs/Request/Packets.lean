import HttpWire.Proofs.Body.InMemory
import HttpWire.Proofs.Octets.Texts
import HttpWire.Proofs.Request.Derived

/-! The packets of a request: its head line by line, then those of a new pass over its body. -/
namespace HttpWire.Request
open PacketStream

/-- The answers of a new pass over the body. -/
def bodyAnswers (r : Request) : List (Option (Except Error Octets)) :=
  match r.body with
  | none => [some (.ok [])]
  | some body => (answers body.open).1

/-- All octets of a request, head and body. -/
def wire (r : Request) : Octets := handedOut (answers r.encode).1

namespace Encoding

theorem pull_eq (e : Encoding) : PacketStream.next e = (some e.next.1, e.next.2) := by
  rw [PacketStream.next]
  rfl

section Phases
variable {e : Encoding}

theorem next_of_body {stream : Body.Stream} (h : e.phase = .body stream) :
    e.next.1 = stream.next.1 ∧
      ∀ p, stream.next.1 = .ok p → p ≠ [] → e.next.2.phase = .body stream.next.2 := by
  unfold next
  simp only [h]
  split
  · rename_i hn
    exact ⟨hn.symm, fun _ _ _ => rfl⟩
  · rename_i hn
    refine ⟨hn.symm, fun p hp hne => ?_⟩
    rw [hn] at hp
    exact absurd (Except.ok.inj hp).symm hne
  · rename_i error hn
    refine ⟨hn.symm, fun p hp => ?_⟩
    rw [hn] at hp
    simp at hp

theorem answers_of_body_end {stream stream' : Body.Stream} {answer : Option (Except Error Octets)}
    (h : e.phase = .body stream) (hn : PacketStream.next stream = (answer, stream'))
    (hend : packetOf answer = []) : (answers e).1 = [answer] := by
  obtain ⟨hfirst, -⟩ := next_of_body h
  rw [Body.Stream.pull_eq] at hn
  have hanswer : some e.next.1 = answer := by rw [hfirst, (Prod.mk.inj hn).1]
  rw [answers_of_end (pull_eq e) (by rw [hanswer, hend]), hanswer]

/-- The body is handed on packet by packet, up to its end or its failure. -/
theorem answers_of_body {stream : Body.Stream} (h : e.phase = .body stream) :
    (answers e).1 = (answers stream).1 := by
  fun_induction answers stream generalizing e with
  | case1 stream stream' hn => exact answers_of_body_end h hn rfl
  | case2 stream p stream' hn hp hlt rest stream'' hrest ih =>
    obtain ⟨hfirst, hphase⟩ := next_of_body h
    rw [Body.Stream.pull_eq] at hn
    obtain ⟨hresult, rfl⟩ := Prod.mk.inj hn
    have hresult := Option.some.inj hresult
    have hpull : PacketStream.next e = (some (.ok p), e.next.2) := by
      rw [pull_eq, hfirst, hresult]
    rw [answers_of_packet hpull hp, ih (hphase p hresult hp), hrest]
  | case3 stream error stream' hn => exact answers_of_body_end h hn rfl
  | case4 stream stream' hn =>
    rw [Body.Stream.pull_eq] at hn
    simp at hn

theorem answers_of_closed (h : e.phase = .closed) : (answers e).1 = [some (.ok [])] := by
  have hpull : PacketStream.next e = (some (.ok []), e) := by rw [pull_eq, next, h]
  rw [answers_of_end hpull rfl]

theorem answers_of_fields {fields : List (String × String)} (h : e.phase = .fields fields) :
    (answers e).1 = (fields.map fieldLine ++ [Octets.crlf]).map (fun p => some (.ok p)) ++
      (answers e.endFields).1 := by
  induction fields generalizing e with
  | nil =>
    have hpull : PacketStream.next e = (some (.ok Octets.crlf), e.endFields) := by
      rw [pull_eq, next, h]
    rw [answers_of_packet hpull (List.cons_ne_nil _ _)]
    rfl
  | cons field fields ih =>
    have hpull : PacketStream.next e =
        (some (.ok (fieldLine field)), { e with phase := .fields fields }) := by
      rw [pull_eq, next, h]
    have hne : fieldLine field ≠ [] := by simp [fieldLine, Octets.crlf]
    rw [answers_of_packet hpull hne, ih rfl]
    rfl

end Phases
end Encoding

/-- The packets before the body. -/
def headPackets (r : Request) : List Octets :=
  r.requestLine :: r.wireFields.map fieldLine ++ [Octets.crlf]

theorem answers_endFields {e : Encoding} {r : Request} (h : e.source = r.body) :
    (answers e.endFields).1 = r.bodyAnswers := by
  unfold bodyAnswers
  cases hbody : r.body with
  | none =>
    have hphase : e.endFields.phase = .closed := by rw [Encoding.endFields, h, hbody]
    exact Encoding.answers_of_closed hphase
  | some body =>
    have hphase : e.endFields.phase = .body body.open := by rw [Encoding.endFields, h, hbody]
    exact Encoding.answers_of_body hphase

theorem answers_encode (r : Request) :
    (answers r.encode).1 = r.headPackets.map (fun p => some (.ok p)) ++ r.bodyAnswers := by
  have hpull : PacketStream.next r.encode =
      (some (.ok r.requestLine), { r.encode with phase := .fields r.wireFields }) := by
    rw [Encoding.pull_eq]
    rfl
  have hne : r.requestLine ≠ [] := by simp [requestLine, Octets.crlf]
  rw [answers_of_packet hpull hne, Encoding.answers_of_fields rfl, answers_endFields (r := r) rfl]
  rfl

theorem requestLine_eq (r : Request) : r.requestLine =
    Octets.ofText (r.method.name ++ " " ++ r.uri.requestTarget ++ " HTTP/1.1\r\n") := by
  have hspace : Octets.ofText " " = [32] := by decide +kernel
  have hend : Octets.ofText " HTTP/1.1\r\n" = Octets.ofText " HTTP/1.1" ++ Octets.crlf := by
    decide +kernel
  rw [Octets.ofText_append, Octets.ofText_append, Octets.ofText_append, hspace, hend, requestLine]
  simp only [List.append_assoc, List.cons_append, List.nil_append]

/-- The request line, a line for each field of `m` in its order, and the blank line. -/
def headLines (r : Request) (m : HeaderMap) : List Octets :=
  let path := if r.uri.path = "" then "/" else r.uri.path
  let target := path ++ (r.uri.query.map ("?" ++ ·)).getD ""
  Octets.ofText (r.method.name ++ " " ++ target ++ " HTTP/1.1\r\n") ::
    m.pairs.map (fun (name, value) => Octets.ofLatin1 (name ++ ": " ++ value) ++ Octets.crlf) ++
    [Octets.crlf]

/-- A request that was built is sent with the fields of the ordered map. -/
theorem answers_encode_of_build {d : Draft} {r : Request} (h : d.build = .ok r) :
    ∃ m, r.effectiveHeaders = .ok m ∧
      (answers r.encode).1 = (r.headLines m).map (fun p => some (.ok p)) ++ r.bodyAnswers := by
  obtain ⟨m, hm, hpairs⟩ := exists_effectiveHeaders h
  refine ⟨m, hm, ?_⟩
  rw [answers_encode, headPackets, hpairs, requestLine_eq]
  rfl

/-- Two values of one field, and a field that gives way to a derived one. -/
theorem answers_encode_of_build_post :
    let uri : Uri :=
      ⟨some "http", some "h:8", "", some "q", by decide +kernel, by decide +kernel,
        by decide +kernel⟩
    let d := Draft.withBody
      ((((Draft.new .post uri).header "X-b" "2").header "HOST" "x").header "x-B" "1")
      (.inMemory (.ofText "ok"))
    ∃ r m, d.build = .ok r ∧ r.effectiveHeaders = .ok m ∧
      (answers r.encode).1 = (r.headLines m).map (fun p => some (.ok p)) ++ r.bodyAnswers := by
  intro uri d
  have hsome : d.build.toOption.isSome = true := by decide +kernel
  cases hbuild : d.build with
  | error e => simp [hbuild, Except.toOption] at hsome
  | ok r =>
    obtain ⟨m, hm, hanswers⟩ := answers_encode_of_build hbuild
    exact ⟨r, m, rfl, hm, hanswers⟩

end HttpWire.Request
