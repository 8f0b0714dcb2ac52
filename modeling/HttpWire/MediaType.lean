import HttpWire.Charset
import HttpWire.Text

/-! Media types with a charset label. -/
namespace HttpWire

/-- A media type and the label of its character set, if it has one. -/
structure MediaType where
  mime : String
  charset : Option String
deriving DecidableEq, Repr

namespace MediaType

def octetStream : MediaType := ⟨"application/octet-stream", none⟩

def plainText : MediaType := ⟨"text/plain", some "UTF-8"⟩

/-- The form sent in a header field. The label stands as it is, without quotes. -/
def render (t : MediaType) : String :=
  match t.charset with
  | none => t.mime
  | some label => t.mime ++ "; charset=" ++ label

/-- The character set to read a body in: none without a label, an error on an unknown one. -/
def resolve (t : MediaType) : Except String (Option Charset) :=
  match t.charset with
  | none => .ok none
  | some label =>
    match Charset.ofLabel? label with
    | none => .error label
    | some c => .ok (some c)

def describe (t : MediaType) : String :=
  Text.record "ContentType"
    [("mime_type", Text.quoted t.mime), ("charset", Text.optional (t.charset.map Text.quoted))]

end MediaType
end HttpWire
