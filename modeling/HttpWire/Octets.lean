/-! Octets on the wire and the texts they stand for. -/
namespace HttpWire

/-- A run of octets, in the order they travel. -/
abbrev Octets := List UInt8

namespace Octets

def crlf : Octets := [13, 10]

/-- The text in which each octet is the character of the same number (ISO-8859-1). -/
def latin1 (b : Octets) : String := String.ofList (b.map Char.ofUInt8)

/-- One octet per character. A character past U+00FF has none and is sent as a question mark. -/
def ofLatin1 (s : String) : Octets :=
  s.toList.map fun c => if c.toNat < 256 then c.toUInt8 else 63

/-- The UTF-8 octets of a text. -/
def ofText (s : String) : Octets := s.toUTF8.data.toList

/-- Where the first line terminator starts. -/
def crlfIndex? : Octets → Option Nat
  | [] => none
  | [_] => none
  | a :: b :: rest =>
    if a = 13 ∧ b = 10 then some 0 else (crlfIndex? (b :: rest)).map (· + 1)

theorem crlfIndex?_lt {b : Octets} {i : Nat} (h : crlfIndex? b = some i) : i + 1 < b.length := by
  fun_induction crlfIndex? b generalizing i with
  | case1 => simp at h
  | case2 => simp at h
  | case3 => simp at h; simp [← h]
  | case4 a b rest _ ih =>
    obtain ⟨j, hj, rfl⟩ := Option.map_eq_some_iff.1 h
    have := ih hj
    simp only [List.length_cons] at *
    omega

end Octets
end HttpWire
