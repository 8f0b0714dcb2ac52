import HttpWire.Text

/-! Request targets: scheme, authority, path and query. -/
namespace HttpWire
namespace Uri

/-- Letters, digits and the signs of an authority. A percent sign is one, where it may stand. -/
def isAuthorityChar (c : Char) : Bool :=
  let n := c.toNat
  c.isAlphanum || n == 0x21 || (0x24 ≤ n && n ≤ 0x2E) || n == 0x3A || n == 0x3B || n == 0x3D ||
    n == 0x40 || n == 0x5B || n == 0x5D || n == 0x5F || n == 0x7E

/-- The characters of a path. Past ASCII all are allowed. -/
def isPathChar (c : Char) : Bool :=
  let n := c.toNat
  n == 0x21 || n == 0x22 || (0x24 ≤ n && n ≤ 0x3B) || n == 0x3D || (0x40 ≤ n && n ≤ 0x5F) ||
    (0x61 ≤ n && n ≤ 0x7E) || 0x80 ≤ n

/-- The characters of a query. Past ASCII all are allowed. -/
def isQueryChar (c : Char) : Bool :=
  let n := c.toNat
  n == 0x21 || (0x24 ≤ n && n ≤ 0x3B) || n == 0x3D || (0x3F ≤ n && n ≤ 0x7E) || 0x80 ≤ n

end Uri

/-- A target. The fragment of the text it was read from is not kept. -/
structure Uri where
  scheme : Option String
  authority : Option String
  path : String
  query : Option String
  authority_chars : ∀ a ∈ authority, a.toList.all Uri.isAuthorityChar = true
  path_chars : path.toList.all Uri.isPathChar = true
  query_chars : ∀ q ∈ query, q.toList.all Uri.isQueryChar = true
deriving DecidableEq

namespace Uri

/-- What follows the last `c`, or everything if there is none. -/
def afterLast (c : Char) (cs : List Char) : List Char := (cs.reverse.takeWhile (· != c)).reverse

/-- The host of an authority: what follows the user information, up to the port. A host in
brackets may hold colons. -/
def hostOf (authority : List Char) : List Char :=
  match afterLast '@' authority with
  | '[' :: cs => '[' :: (cs.takeWhile (· != ']') ++ (cs.dropWhile (· != ']')).take 1)
  | cs => cs.takeWhile (· != ':')

/-- The port of an authority: the number after the last colon, if that is one of 16 bits. -/
def portOf (authority : List Char) : Option Nat :=
  if authority.contains ':' then Text.numeral? 65536 (afterLast ':' authority) else none

/-- The host, in its brackets if it has them. -/
def host (u : Uri) : Option String := u.authority.map fun a => String.ofList (hostOf a.toList)

def port (u : Uri) : Option Nat := u.authority.bind fun a => portOf a.toList

def render (u : Uri) : String :=
  (u.scheme.map (· ++ "://")).getD "" ++ u.authority.getD "" ++ u.path ++
    (u.query.map ("?" ++ ·)).getD ""

/-- What a request line names: the path, or a slash if there is none, and the query. -/
def requestTarget (u : Uri) : String :=
  (if u.path = "" then "/" else u.path) ++ (u.query.map ("?" ++ ·)).getD ""

/-- The host, and the port if the target names one. -/
def hostAndPort (u : Uri) : String :=
  u.host.getD "" ++ (u.port.map fun n => ":" ++ toString n).getD ""

end Uri
end HttpWire
