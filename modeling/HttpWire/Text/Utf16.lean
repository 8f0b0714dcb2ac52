/-! UTF-16: code units, surrogate pairs and the two byte orders. -/
namespace HttpWire.Text.Utf16

def isHigh (u : Nat) : Bool := 0xD800 ≤ u && u < 0xDC00

def isLow (u : Nat) : Bool := 0xDC00 ≤ u && u < 0xE000

def combine (high low : Nat) : Nat := 0x10000 + (high - 0xD800) * 0x400 + (low - 0xDC00)

/-- The characters of a run of units. A surrogate outside a pair has none. -/
def ofUnits? : List Nat → Option (List Char)
  | [] => some []
  | u :: us =>
    if isHigh u then
      match us with
      | [] => none
      | v :: vs => if isLow v then (ofUnits? vs).map (Char.ofNat (combine u v) :: ·) else none
    else if isLow u then none
    else (ofUnits? us).map (Char.ofNat u :: ·)

/-- The units of a character: itself, or a surrogate pair. -/
def units (c : Char) : List Nat :=
  let n := c.toNat
  if n < 0x10000 then [n]
  else [0xD800 + (n - 0x10000) / 0x400, 0xDC00 + (n - 0x10000) % 0x400]

/-- Octet pairs as units, the first octet of each pair the more significant. -/
def bigEndian? : List UInt8 → Option (List Nat)
  | [] => some []
  | [_] => none
  | a :: b :: rest => (bigEndian? rest).map ((a.toNat * 256 + b.toNat) :: ·)

/-- Octet pairs as units, the second octet of each pair the more significant. -/
def littleEndian? : List UInt8 → Option (List Nat)
  | [] => some []
  | [_] => none
  | a :: b :: rest => (littleEndian? rest).map ((b.toNat * 256 + a.toNat) :: ·)

def decodeBigEndian? (b : List UInt8) : Option String :=
  ((bigEndian? b).bind ofUnits?).map String.ofList

def decodeLittleEndian? (b : List UInt8) : Option String :=
  ((littleEndian? b).bind ofUnits?).map String.ofList

def encodeBigEndian (s : String) : List UInt8 :=
  s.toList.flatMap fun c => (units c).flatMap fun u => [(u / 256).toUInt8, (u % 256).toUInt8]

def encodeLittleEndian (s : String) : List UInt8 :=
  s.toList.flatMap fun c => (units c).flatMap fun u => [(u % 256).toUInt8, (u / 256).toUInt8]

end HttpWire.Text.Utf16
