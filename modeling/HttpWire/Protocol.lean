import HttpWire.Header.Field

/-! Request methods, and versions of the protocol. -/
namespace HttpWire

/-- A method is a token. Its case counts. -/
structure Method where
  name : String
  isToken : Field.isToken name = true
deriving DecidableEq

namespace Method

def ofText? (name : String) : Option Method :=
  if h : Field.isToken name = true then some ⟨name, h⟩ else none

def get : Method := ⟨"GET", by decide +kernel⟩
def head : Method := ⟨"HEAD", by decide +kernel⟩
def delete : Method := ⟨"DELETE", by decide +kernel⟩
def post : Method := ⟨"POST", by decide +kernel⟩
def put : Method := ⟨"PUT", by decide +kernel⟩

/-- The standard methods whose requests carry no body. -/
def bodyless : List String := ["GET", "HEAD", "DELETE", "CONNECT", "OPTIONS", "TRACE"]

/-- Whether requests of this method may carry a body. Extension methods may. -/
def allowsBody (m : Method) : Bool := !bodyless.contains m.name

end Method

/-- The versions that can be asked for. Only version 1.1 is spoken. -/
inductive Version
  | http09 | http10 | http11 | http2 | http3
deriving DecidableEq, Repr

def Version.text : Version → String
  | .http09 => "HTTP/0.9"
  | .http10 => "HTTP/1.0"
  | .http11 => "HTTP/1.1"
  | .http2 => "HTTP/2.0"
  | .http3 => "HTTP/3.0"

end HttpWire
