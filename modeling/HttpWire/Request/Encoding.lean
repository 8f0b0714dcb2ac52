import HttpWire.Request

/-! Requests as packets: the request line, a packet for each header line, the blank line, and the
packets of the body. -/
namespace HttpWire
namespace Request

/-- The header fields that follow from the target and the body. -/
def derivedFields (r : Request) : List (String × String) :=
  ("Host", r.uri.hostAndPort) ::
    match r.body with
    | none => []
    | some body =>
      (body.length.map fun n => ("Content-Length", toString n)).toList ++
        [("Content-Type", body.mediaType.render)]

/-- The caller's header fields without those that are derived. -/
def keptFields (r : Request) : List (String × String) :=
  r.headers.pairs.filter fun (name, _) =>
    !(r.derivedFields.any fun (derived, _) => Text.sameLetters derived name)

/-- Put a field before the first one whose lower-cased name is not less. -/
def placeField (f : String × String) : List (String × String) → List (String × String)
  | [] => [f]
  | g :: gs =>
    if Text.lower f.1 ≤ Text.lower g.1 then f :: g :: gs else g :: placeField f gs

/-- The fields in the order of the lower-cased name. Those of one name keep their order. -/
def sortFields (fields : List (String × String)) : List (String × String) :=
  fields.foldr placeField []

def wireFields (r : Request) : List (String × String) :=
  sortFields (r.keptFields ++ r.derivedFields)

def requestLine (r : Request) : Octets :=
  Octets.ofText r.method.name ++ 32 :: Octets.ofText r.uri.requestTarget ++
    Octets.ofText " HTTP/1.1" ++ Octets.crlf

def fieldLine (field : String × String) : Octets :=
  Octets.ofLatin1 (field.1 ++ ": " ++ field.2) ++ Octets.crlf

inductive BodyEvent
  | opened
  | pulled (result : Except Error Octets)
  | closed (result : Except Error Unit)

inductive Phase
  | requestLine (line : Octets) (fields : List (String × String))
  | fields (rest : List (String × String))
  | body (stream : Body.Stream)
  | closed

def Phase.name : Phase → String
  | requestLine _ _ => "request-line"
  | fields _ => "headers"
  | body _ => "body"
  | closed => "closed"

/-- A request on its way into packets. What was done with its body is on record, latest first. -/
structure Encoding where
  source : Option Body
  phase : Phase
  record : List BodyEvent

def encode (r : Request) : Encoding := ⟨r.body, .requestLine r.requestLine r.wireFields, []⟩

namespace Encoding

/-- Close the body. A failure to do so is kept on record only. -/
def closeBody (e : Encoding) (stream : Body.Stream) : Encoding :=
  { e with phase := .closed, record := .closed stream.close.1 :: e.record }

/-- The blank line, after which the body is opened. -/
def endFields (e : Encoding) : Encoding :=
  match e.source with
  | none => { e with phase := .closed }
  | some body => { e with phase := .body body.open, record := .opened :: e.record }

/-- The next packet. An empty one, or an error, is the end. -/
def next (e : Encoding) : Except Error Octets × Encoding :=
  match e.phase with
  | .requestLine line fields => (.ok line, { e with phase := .fields fields })
  | .fields (field :: rest) => (.ok (fieldLine field), { e with phase := .fields rest })
  | .fields [] => (.ok Octets.crlf, e.endFields)
  | .body stream =>
    let (result, stream) := stream.next
    let e := { e with phase := .body stream, record := .pulled result :: e.record }
    match result with
    | .ok (o :: os) => (.ok (o :: os), e)
    | .ok [] => (.ok [], e.closeBody stream)
    | .error error => (.error error, e.closeBody stream)
  | .closed => (.ok [], e)

/-- Stop here, and close the body if it is open. -/
def close (e : Encoding) : Except Error Unit × Encoding :=
  match e.phase with
  | .body stream => (stream.close.1, e.closeBody stream)
  | _ => (.ok (), { e with phase := .closed })

def bodySupply (e : Encoding) : Nat := (e.source.map fun b => b.open.supply).getD 0

def fieldSupply (fields : List (String × String)) : Nat :=
  sumOf (fun f => (fieldLine f).length) fields + Octets.crlf.length

def supply (e : Encoding) : Nat :=
  match e.phase with
  | .requestLine line fields => line.length + fieldSupply fields + e.bodySupply
  | .fields rest => fieldSupply rest + e.bodySupply
  | .body stream => stream.supply
  | .closed => 0

theorem supply_endFields (e : Encoding) : e.endFields.supply ≤ e.bodySupply := by
  unfold endFields
  split
  · simp [supply]
  · rename_i body h
    simp [supply, bodySupply, h]

theorem supply_next {e e' : Encoding} {p : Octets} (h : e.next = (.ok p, e')) :
    e'.supply + p.length ≤ e.supply := by
  unfold next at h
  split at h
  · rename_i line fields hp
    simp only [Prod.mk.injEq, Except.ok.injEq] at h
    obtain ⟨rfl, rfl⟩ := h
    simp only [supply, bodySupply, hp]
    omega
  · rename_i field rest hp
    simp only [Prod.mk.injEq, Except.ok.injEq] at h
    obtain ⟨rfl, rfl⟩ := h
    simp only [supply, bodySupply, fieldSupply, hp, sumOf_cons]
    omega
  · rename_i hp
    simp only [Prod.mk.injEq, Except.ok.injEq] at h
    obtain ⟨rfl, rfl⟩ := h
    have := e.supply_endFields
    simp only [supply, fieldSupply, hp, sumOf_nil] at this ⊢
    omega
  · rename_i stream hp
    cases hn : stream.next with
    | mk result stream' =>
      simp only [hn] at h
      split at h
      · simp only [Prod.mk.injEq, Except.ok.injEq] at h
        obtain ⟨rfl, rfl⟩ := h
        simpa only [supply, hp] using Body.Stream.supply_next hn
      · simp only [Prod.mk.injEq, Except.ok.injEq] at h
        obtain ⟨rfl, rfl⟩ := h
        simp [supply, closeBody]
      · simp at h
  · simp only [Prod.mk.injEq, Except.ok.injEq] at h
    obtain ⟨rfl, rfl⟩ := h
    simp

instance : PacketStream Encoding where
  pull e := (.ready e.next.1, e.next.2)
  supply := supply
  supply_again h := by simp at h
  supply_packet hp h := by
    simp only [Prod.mk.injEq, Progress.ready.injEq] at h
    have := supply_next (Prod.ext h.1 h.2)
    have := List.length_pos_iff.2 hp
    omega

def describe (e : Encoding) : String :=
  Text.record "EncodedRequest" [("state", Text.quoted e.phase.name)]

end Encoding
end Request
end HttpWire
