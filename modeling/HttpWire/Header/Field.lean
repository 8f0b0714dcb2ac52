/-! The grammar of header fields: tokens, names and values. -/
namespace HttpWire

namespace Field

/-- The printing ASCII characters that separate tokens. -/
def separators : List Char :=
  ['(', ')', '<', '>', '@', ',', ';', ':', '\\', '"', '/', '[', ']', '?', '=', '{', '}']

/-- A printing ASCII character other than a space and the separators. -/
def isTokenChar (c : Char) : Bool :=
  0x21 ≤ c.toNat && c.toNat < 0x7F && !separators.contains c

def isToken (s : String) : Bool := !s.toList.isEmpty && s.toList.all isTokenChar

/-- An octet that is no control character, or a tab. -/
def isValueChar (c : Char) : Bool :=
  c == ' ' || c == '\t' || (0x21 ≤ c.toNat && c.toNat ≤ 0xFF && c.toNat != 0x7F)

def isValue (s : String) : Bool := s.toList.all isValueChar

inductive Problem
  | invalidName (name : String)
  | invalidValue (name value : String)
deriving DecidableEq, Repr

/-- A field that must stand alone has several values. The name is in its stored casing. -/
structure Repeated where
  name : String
deriving DecidableEq, Repr

/-- The name is looked at first. -/
def problem? (name value : String) : Option Problem :=
  if !isToken name then some (.invalidName name)
  else if !isValue value then some (.invalidValue name value)
  else none

theorem problem?_eq_none_iff {name value : String} :
    problem? name value = none ↔ isToken name = true ∧ isValue value = true := by
  unfold problem?
  cases isToken name <;> cases isValue value <;> simp

end Field
end HttpWire
