import HttpWire.Octets
import HttpWire.Text
import HttpWire.Text.Utf16

/-! The character sets a body can be read in. -/
namespace HttpWire

/-- A known character set. `utf16` goes by its byte-order mark, and is big-endian without one. -/
inductive Charset
  | utf8 | latin1 | ascii | utf16 | utf16be | utf16le
deriving DecidableEq, Repr

namespace Charset

def labels : List (String × Charset) :=
  [("utf-8", utf8), ("utf8", utf8),
    ("iso-8859-1", latin1), ("iso8859-1", latin1), ("latin1", latin1), ("latin-1", latin1),
    ("l1", latin1), ("us-ascii", ascii), ("ascii", ascii), ("utf-16", utf16), ("utf16", utf16),
    ("utf-16be", utf16be), ("utf-16le", utf16le)]

/-- Blanks around a label and the case of its letters do not count. -/
def ofLabel? (label : String) : Option Charset :=
  labels.lookup (Text.lower (String.ofList (Text.trim Text.isBlank label.toList)))

def decode? (c : Charset) (b : Octets) : Option String :=
  match c with
  | utf8 => String.fromUTF8? ⟨b.toArray⟩
  | latin1 => some (Octets.latin1 b)
  | ascii => if b.all (· < 128) then some (Octets.latin1 b) else none
  | utf16 =>
    match b with
    | 0xFF :: 0xFE :: rest => Text.Utf16.decodeLittleEndian? rest
    | 0xFE :: 0xFF :: rest => Text.Utf16.decodeBigEndian? rest
    | _ => Text.Utf16.decodeBigEndian? b
  | utf16be => Text.Utf16.decodeBigEndian? b
  | utf16le => Text.Utf16.decodeLittleEndian? b

end Charset
end HttpWire
