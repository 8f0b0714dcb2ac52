import HttpWire.Body.Reader
import HttpWire.Response.Head

/-! Responses, and the ways to read their bodies. -/
namespace HttpWire
namespace Response

/-- The body of a response, still bound to the connection it arrives on. -/
structure Body where
  mediaType : MediaType
  reader : BodyReader
deriving DecidableEq

namespace Body
variable {σ : Type} [Connection σ]

def release (b : Body) (s : σ) : σ := b.reader.release s

/-- Read the whole body, then shut the connection down, however the reading ended. There is no
answer if the connection stalls; the body is then given up. -/
def octets (b : Body) (s : σ) : Option (Except Error Octets) × σ :=
  match PacketStream.collect (b.reader, s) with
  | (some result, (reader, s)) =>
    let (_, reader, s) := reader.shutdown s
    (some result, reader.release s)
  | (none, (reader, s)) => (none, reader.release s)

/-- Read the whole body as text in its character set, or in UTF-8 if it names none. A character set
that is not known is refused before anything is read. -/
def text (b : Body) (s : σ) : Option (Except Error String) × σ :=
  match b.mediaType.resolve with
  | .error label => (some (.error (.unsupportedCharset label)), b.release s)
  | .ok charset =>
    let (result, s) := b.octets s
    (result.map fun result => do
      let content ← result
      match (charset.getD .utf8).decode? content with
      | none => .error .invalidText
      | some text => .ok text, s)

/-- The packets of the body as they come, up to the first error. The last item is missing its value
if the connection stalls. -/
def items (b : Body) (s : σ) : List (Option (Except Error Octets)) × σ :=
  let (answers, (reader, s)) := PacketStream.answers (b.reader, s)
  (answers.filter fun
    | some (.ok []) => false
    | _ => true, reader.release s)

def close (b : Body) (s : σ) : Except Error Unit × σ :=
  let (result, reader, s) := b.reader.shutdown s
  (result, reader.release s)

def describe (b : Body) : String :=
  Text.record "ResponseBody"
    [("content_type", b.mediaType.describe), ("stream", b.reader.describe)]

end Body
end Response

structure Response where
  status : Nat
  reason : String
  headers : HeaderMap
  body : Option Response.Body

namespace Response

def isInformational (r : Response) : Bool := 100 ≤ r.status && r.status < 200

def isSuccess (r : Response) : Bool := 200 ≤ r.status && r.status < 300

def isRedirect (r : Response) : Bool := 300 ≤ r.status && r.status < 400

def isClientError (r : Response) : Bool := 400 ≤ r.status && r.status < 500

def isServerError (r : Response) : Bool := 500 ≤ r.status && r.status < 600

def isError (r : Response) : Bool := r.isClientError || r.isServerError

/-- One declared length: a decimal of 64 bits, with blanks around it. -/
def length? (value : String) : Option Nat :=
  Text.numeral? UInt64.size (Text.trim Text.isBlank value.toList)

/-- The declared length of the body. One that cannot be read is unknown, and so are several that do
not agree. -/
def declaredLength (headers : HeaderMap) : Option Nat :=
  match (headers.getAll "Content-Length").map length? with
  | [] => none
  | n :: ns => if ns.all (· == n) then n else none

/-- The declared media type of the body. A body that declares none is octets of no particular
kind. -/
def declaredType (headers : HeaderMap) : Except Error MediaType :=
  match headers.get "Content-Type" with
  | .error e => .error (.repeatedField e)
  | .ok none => .ok .octetStream
  | .ok (some value) => (MediaType.parse value).mapError .mediaType

def carriesBody (method : Method) (status : Nat) : Bool :=
  !(method == Method.head || (100 ≤ status && status < 200) || status == 204 || status == 304)

end Response
end HttpWire
