import HttpWire.Text

/-! Internet addresses and their texts. -/
namespace HttpWire

/-- An address of 32 bits, by its octets. -/
structure Ipv4 where
  octets : Fin 4 → UInt8

namespace Ipv4

def of (a b c d : UInt8) : Ipv4 :=
  ⟨fun
    | 0 => a
    | 1 => b
    | 2 => c
    | 3 => d⟩

/-- A decimal octet, without leading zeros. -/
def octet? (cs : List Char) : Option UInt8 :=
  if cs.length > 3 || (cs.length > 1 && cs.head? == some '0') || cs.isEmpty then none
  else ((Text.digits? 0 cs).filter (· < 256)).map Nat.toUInt8

def ofChars? (cs : List Char) : Option Ipv4 :=
  match (cs.splitOnP (· == '.')).map octet? with
  | [some a, some b, some c, some d] => some (of a b c d)
  | _ => none

def render (a : Ipv4) : String :=
  String.intercalate "." ([0, 1, 2, 3].map fun i => toString (a.octets i).toNat)

end Ipv4

/-- An address of 128 bits, by its groups of 16. -/
structure Ipv6 where
  groups : Vector UInt16 8

namespace Ipv6

def hexDigit? (c : Char) : Option Nat :=
  if c.isDigit then some (c.toNat - 48)
  else if 'a' ≤ c ∧ c ≤ 'f' then some (c.toNat - 87)
  else if 'A' ≤ c ∧ c ≤ 'F' then some (c.toNat - 55)
  else none

def group? (cs : List Char) : Option UInt16 :=
  if cs.isEmpty || cs.length > 4 then none
  else (cs.foldlM (fun n c => (hexDigit? c).map (16 * n + ·)) 0).map Nat.toUInt16

/-- Groups with colons between them. The last one may be an address of 32 bits. -/
def groups? (last : Bool) : List (List Char) → Option (List UInt16)
  | [] => some []
  | [cs] =>
    match group? cs with
    | some g => some [g]
    | none =>
      if !last then none
      else (Ipv4.ofChars? cs).map fun a =>
        let o := fun i => (a.octets i).toUInt16
        [o 0 * 256 + o 1, o 2 * 256 + o 3]
  | cs :: rest => do
    let g ← group? cs
    let gs ← groups? last rest
    return g :: gs

/-- The groups in a part of an address, which may be empty. -/
def part? (last : Bool) (cs : List Char) : Option (List UInt16) :=
  if cs.isEmpty then some [] else groups? last (cs.splitOnP (· == ':'))

/-- The parts before and after the first two colons in a row. -/
def splitGap? : List Char → Option (List Char × List Char)
  | ':' :: ':' :: cs => some ([], cs)
  | c :: cs => (splitGap? cs).map fun (before, after) => (c :: before, after)
  | [] => none

/-- The address of these groups, if they are eight. -/
def ofGroups? (gs : List UInt16) : Option Ipv6 :=
  if h : gs.length = 8 then some ⟨⟨gs.toArray, by simpa using h⟩⟩ else none

/-- Read an address. Two colons in a row stand for one or more groups of zero. -/
def ofChars? (cs : List Char) : Option Ipv6 := do
  match splitGap? cs with
  | none => ofGroups? (← groups? true (cs.splitOnP (· == ':')))
  | some (before, after) =>
    let front ← part? false before
    let back ← part? true after
    if front.length + back.length > 7 then none
    else ofGroups? (front ++ List.replicate (8 - front.length - back.length) 0 ++ back)

def renderGroups (gs : List UInt16) : String :=
  String.intercalate ":" (gs.map fun g => String.ofList (Nat.toDigits 16 g.toNat))

def zeros (gs : List UInt16) : Nat := (gs.takeWhile (· == 0)).length

/-- Where the longest run of zeros starts, the first of several, and its length. -/
def longestGap (gs : List UInt16) : Nat × Nat :=
  (List.range gs.length).foldl (fun best i =>
    let n := zeros (gs.drop i)
    if n > best.2 then (i, n) else best) (0, 0)

/-- The shortest usual text: the longest run of two or more zeros is left out, and an address of 32
bits within one of 128 keeps its points. -/
def render (a : Ipv6) : String :=
  match a.groups.toList with
  | [0, 0, 0, 0, 0, 0xFFFF, g, h] =>
    "::ffff:" ++
      (Ipv4.of (g / 256).toUInt8 (g % 256).toUInt8 (h / 256).toUInt8 (h % 256).toUInt8).render
  | gs =>
    let (start, n) := longestGap gs
    if n > 1 then renderGroups (gs.take start) ++ "::" ++ renderGroups (gs.drop (start + n))
    else renderGroups gs

end Ipv6
end HttpWire
