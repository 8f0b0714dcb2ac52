import HttpWire.Text
import HttpWire.Uri

/-! Reading targets from text. -/
namespace HttpWire.Uri

inductive ParseError
  | tooLong | empty | invalidCharacter | invalidAuthority | invalidFormat | schemeTooLong
deriving DecidableEq, Repr

def ParseError.message : ParseError → String
  | .tooLong => "uri too long"
  | .empty => "empty string"
  | .invalidCharacter => "invalid uri character"
  | .invalidAuthority => "invalid authority"
  | .invalidFormat => "invalid format"
  | .schemeTooLong => "scheme too long"

/-- The longest text read, in octets of UTF-8. -/
def maxLength : Nat := 65534

def maxSchemeLength : Nat := 64

/-- The most colons an authority has between two resets. -/
def maxColons : Nat := 8

def isSchemeChar (c : Char) : Bool :=
  c.isAlphanum || c == '+' || c == '-' || c == '.' || c == '~'

def endsAuthority (c : Char) : Bool := c == '/' || c == '?' || c == '#'

/-- What an authority has shown so far. A user name or a bracketed host may hold colons and percent
signs, so both are forgotten after it. -/
structure AuthorityScan where
  colons : Nat
  opened : Bool
  closed : Bool
  percent : Bool

namespace AuthorityScan

def start : AuthorityScan := ⟨0, false, false, false⟩

def step (s : AuthorityScan) (c : Char) : Except ParseError AuthorityScan :=
  if c = ':' then
    if s.colons ≥ maxColons then .error .invalidAuthority
    else .ok { s with colons := s.colons + 1 }
  else if c = '[' then
    if s.percent || s.opened then .error .invalidAuthority else .ok { s with opened := true }
  else if c = ']' then
    if !s.opened || s.closed then .error .invalidAuthority
    else .ok { s with closed := true, colons := 0, percent := false }
  else if c = '@' then .ok { s with colons := 0, percent := false }
  else if c = '%' then .ok { s with percent := true }
  else if isAuthorityChar c then .ok s
  else .error .invalidCharacter

/-- Whether an authority may end here: brackets paired, at most one colon before a port, and no
percent sign in the host. -/
def mayEnd (s : AuthorityScan) : Bool :=
  (s.opened == s.closed) && s.colons ≤ 1 && !s.percent

end AuthorityScan

/-- Check the form of an authority. Something must follow the user information. -/
def checkAuthority (cs : List Char) : Except ParseError Unit :=
  match cs.foldlM AuthorityScan.step .start with
  | .error e => .error e
  | .ok s => if s.mayEnd && cs.getLast? != some '@' then .ok () else .error .invalidAuthority

def splitAuthority (cs : List Char) : Except ParseError (List Char × List Char) :=
  if cs = [] then .error .empty
  else
    let authority := cs.takeWhile fun c => !endsAuthority c
    match checkAuthority authority with
    | .error e => .error e
    | .ok () => .ok (authority, cs.dropWhile fun c => !endsAuthority c)

/-- The path at the front and the query, up to the fragment. -/
def splitPath (cs : List Char) : Except ParseError (List Char × Option (List Char)) :=
  let path := cs.takeWhile isPathChar
  match cs.dropWhile isPathChar with
  | [] => .ok (path, none)
  | '#' :: _ => .ok (path, none)
  | '?' :: rest =>
    let query := rest.takeWhile isQueryChar
    match rest.dropWhile isQueryChar with
    | [] => .ok (path, some query)
    | '#' :: _ => .ok (path, some query)
    | _ => .error .invalidCharacter
  | _ => .error .invalidCharacter

/-- The scheme at the front, if there is one, and the rest. The two schemes that can be spoken are
known in any case, every other one is kept as it is written. -/
def splitScheme (cs : List Char) : Except ParseError (Option String × List Char) :=
  if (cs.take 7).map Char.toLower = "http://".toList then .ok (some "http", cs.drop 7)
  else if (cs.take 8).map Char.toLower = "https://".toList then .ok (some "https", cs.drop 8)
  else if (String.ofList cs).utf8ByteSize ≤ 3 then .ok (none, cs)
  else
    let scheme := cs.takeWhile isSchemeChar
    match cs.dropWhile isSchemeChar with
    | ':' :: '/' :: '/' :: rest =>
      if scheme.length > maxSchemeLength then .error .schemeTooLong
      else .ok (some (String.ofList scheme), rest)
    | _ => .ok (none, cs)

def ofParts (scheme : Option String) (authority : Option (List Char)) (path : List Char)
    (query : Option (List Char)) : Except ParseError Uri :=
  if h : (authority.getD []).all isAuthorityChar = true ∧ path.all isPathChar = true ∧
      (query.getD []).all isQueryChar = true then
    .ok {
      scheme := scheme
      authority := authority.map String.ofList
      path := String.ofList path
      query := query.map String.ofList
      authority_chars := by
        cases authority with
        | none => simp
        | some a => simpa using h.1
      path_chars := by simpa using h.2.1
      query_chars := by
        cases query with
        | none => simp
        | some q => simpa using h.2.2 }
  else .error .invalidCharacter

/-- A target that is an authority and nothing else. -/
def ofAuthority (cs : List Char) (otherwise : ParseError) : Except ParseError Uri :=
  match splitAuthority cs with
  | .error e => .error e
  | .ok (authority, []) => ofParts none (some authority) [] none
  | .ok _ => .error otherwise

def ofPath (cs : List Char) : Except ParseError Uri :=
  match splitPath cs with
  | .error e => .error e
  | .ok (path, query) => ofParts none none path query

/-- A target after its scheme: an authority, then a path. The empty path is the root. -/
def ofHierarchy (scheme : String) (cs : List Char) : Except ParseError Uri :=
  match splitAuthority cs with
  | .error e => .error e
  | .ok ([], _) => .error .invalidFormat
  | .ok (authority, rest) =>
    match splitPath rest with
    | .error e => .error e
    | .ok (path, query) =>
      ofParts (some scheme) (some authority) (if path = [] then ['/'] else path) query

/-- Read a target: a star, a path, an authority, or a scheme with an authority and a path. -/
def parse (text : String) : Except ParseError Uri :=
  let cs := text.toList
  if text.utf8ByteSize > maxLength then .error .tooLong
  else if cs = [] then .error .empty
  else if cs = ['*'] then ofPath cs
  else if cs.head? = some '/' then ofPath cs
  else if text.utf8ByteSize = 1 then ofAuthority cs .invalidCharacter
  else
    match splitScheme cs with
    | .error e => .error e
    | .ok (none, cs) => ofAuthority cs .invalidFormat
    | .ok (some scheme, cs) => ofHierarchy scheme cs

end HttpWire.Uri
