import HttpWire.Body
import HttpWire.Header.Map

/-! Requests, and the checks they pass when they are built. -/
namespace HttpWire

/-- A request. Its headers are those that the caller set. -/
structure Request where
  method : Method
  uri : Uri
  headers : HeaderMap
  body : Option Body

namespace Request

/-- A request being put together. The first header field that is refused is remembered, and no
later step makes up for it. -/
structure Draft where
  method : Method
  uri : Uri
  headers : HeaderMap
  body : Option Body
  refused : Option Field.Problem

namespace Draft

def new (method : Method) (uri : Uri) : Draft := ⟨method, uri, .empty, none, none⟩

def header (d : Draft) (name value : String) : Draft :=
  match d.refused with
  | some _ => d
  | none =>
    match d.headers.append name value with
    | .error p => { d with refused := some p }
    | .ok headers => { d with headers }

def withHeaders (d : Draft) (headers : HeaderMap) : Draft :=
  match d.refused with
  | some _ => d
  | none => { d with headers }

def withBody (d : Draft) (body : Body) : Draft :=
  match d.refused with
  | some _ => d
  | none => { d with body }

def knownScheme (uri : Uri) : Bool := uri.scheme == some "http" || uri.scheme == some "https"

def hasHost (uri : Uri) : Bool := (uri.host.getD "") != ""

/-- The media type of a body goes on the wire as a header value, so it must be one. -/
def mediaTypeProblem? (body : Body) : Option Field.Problem :=
  if Field.isValue body.mediaType.render then none
  else some (.invalidValue "Content-Type" body.mediaType.render)

def build (d : Draft) : Except Error Request :=
  match d.refused with
  | some p => .error (.field p)
  | none =>
    if d.body.isSome && !d.method.allowsBody then .error (.bodyNotAllowed d.method)
    else if !knownScheme d.uri then .error .invalidScheme
    else if !hasHost d.uri then .error .missingHost
    else
      match d.body.bind mediaTypeProblem? with
      | some p => .error (.field p)
      | none => .ok ⟨d.method, d.uri, d.headers, d.body⟩

end Draft

def plain (method : Method) (uri : Uri) : Except Error Request := (Draft.new method uri).build

def carrying (method : Method) (uri : Uri) (body : InMemory) : Except Error Request :=
  ((Draft.new method uri).withBody (.inMemory body)).build

/-- The parts on one line. Of the body only the media type is told. -/
def describe (r : Request) : String :=
  Text.record "Request"
    [("method", r.method.name), ("uri", r.uri.render), ("headers", r.headers.describe),
      ("body", Text.optional (r.body.map fun b => Text.quoted b.mediaType.render))]

end Request
end HttpWire
