import HttpWire.Buffer
import HttpWire.Error
import HttpWire.Header.Map

/-! Response heads: the lines before the body, and a decoder that is fed them in any pieces. -/
namespace HttpWire

/-- Everything before the body of a response. -/
structure Head where
  status : Nat
  reason : String
  headers : HeaderMap

namespace Head

def statusCode? : List Char → Option Nat
  | [a, b, c] => Text.digits? 0 [a, b, c]
  | _ => none

/-- Read a status line: a version, a code and a reason that may be empty, with single spaces between
them. A line with too few parts is malformed whatever its version. -/
def statusLine (line : String) : Except HeadError (Nat × String) :=
  match Text.splitFirst? ' ' line.toList with
  | none => .error (.malformedStatusLine line)
  | some (version, rest) =>
    match Text.splitFirst? ' ' rest with
    | none => .error (.malformedStatusLine line)
    | some (code, reason) =>
      if version ≠ "HTTP/1.0".toList ∧ version ≠ "HTTP/1.1".toList then
        .error (.unsupportedVersion (String.ofList version))
      else
        match statusCode? code with
        | none => .error (.malformedStatusLine line)
        | some status => .ok (status, String.ofList reason)

/-- Add a header line to `headers`. Spaces and tabs around the name and the value do not count. -/
def fieldLine (headers : HeaderMap) (line : String) : Except HeadError HeaderMap :=
  match Text.splitFirst? ':' line.toList with
  | none => .error (.malformedField line)
  | some (name, value) =>
    (headers.append (String.ofList (Text.trim Text.isSpaceOrTab name))
      (String.ofList (Text.trim Text.isSpaceOrTab value))).mapError .field

structure Decoder where
  /-- The longest line accepted. -/
  maxLine : Nat
  /-- The octets at the front of the buffer in which no line end starts. -/
  scanned : Nat
  status : Option (Nat × String)
  headers : HeaderMap
  finished : Bool

namespace Decoder

def defaultMaxLine : Nat := 16384

def new (maxLine : Nat) : Decoder := ⟨maxLine, 0, none, .empty, false⟩

/-- Take in one line. The blank line after the fields completes the head. -/
def takeLine (d : Decoder) (line : String) : Except HeadError (Option Head) × Decoder :=
  match d.status with
  | none =>
    match statusLine line with
    | .error e => (.error e, d)
    | .ok status => (.ok none, { d with status := some status })
  | some (status, reason) =>
    if line = "" then
      (.ok (some ⟨status, reason, d.headers⟩),
        { d with status := none, headers := .empty, finished := true })
    else
      match fieldLine d.headers line with
      | .error e => (.error e, d)
      | .ok headers => (.ok none, { d with headers })

/-- The result of a decoding step, the decoder after it, and the octets left in the buffer. -/
structure Outcome where
  result : Except HeadError (Option Head)
  decoder : Decoder
  buffer : Buffer

/-- Where the next line ends, searched from where the last search stopped. -/
def lineEnd? (d : Decoder) (buffer : Buffer) : Option Nat :=
  let start := min d.scanned buffer.size
  (Octets.crlfIndex? (buffer.since start)).map (start + ·)

theorem lineEnd?_lt {d : Decoder} {buffer : Buffer} {i : Nat} (h : d.lineEnd? buffer = some i) :
    i + 1 < buffer.size := by
  simp only [lineEnd?, Buffer.since_eq_drop, Option.map_eq_some_iff] at h
  obtain ⟨j, hj, rfl⟩ := h
  have := Octets.crlfIndex?_lt hj
  simp only [List.length_drop, Buffer.length_toOctets] at this
  omega

/-- Take in every complete line at the front of the buffer, up to the blank line. There is no head
yet if the buffer ends inside a line, and none any more once it was given. A line that is refused
is gone from the buffer, unless it is too long. -/
def decode (d : Decoder) (buffer : Buffer) : Outcome :=
  if d.finished then ⟨.ok none, d, buffer⟩
  else
    match h : d.lineEnd? buffer with
    | none =>
      if buffer.size > d.maxLine then ⟨.error (.lineTooLong d.maxLine), d, buffer⟩
      else ⟨.ok none, { d with scanned := buffer.size - 1 }, buffer⟩
    | some i =>
      if i > d.maxLine then ⟨.error (.lineTooLong d.maxLine), d, buffer⟩
      else
        have : (buffer.drop (i + 2)).size < buffer.size := by
          have := lineEnd?_lt h
          rw [Buffer.size_drop]
          omega
        match { d with scanned := 0 }.takeLine (Octets.latin1 (buffer.toOctets.take i)) with
        | (.error e, d) => ⟨.error e, d, buffer.drop (i + 2)⟩
        | (.ok (some head), d) => ⟨.ok (some head), d, buffer.drop (i + 2)⟩
        | (.ok none, d) => d.decode (buffer.drop (i + 2))
termination_by buffer.size

def feed (d : Decoder) (buffer : Buffer) (chunk : Octets) : Outcome :=
  d.decode (buffer.append chunk)

/-- Feed chunk after chunk until there is a head or an error. Tells how many chunks were fed. -/
def feedAll (d : Decoder) (buffer : Buffer) (fed : Nat) : List Octets → Nat × Outcome
  | [] => (fed, ⟨.ok none, d, buffer⟩)
  | chunk :: chunks =>
    let o := d.feed buffer chunk
    match o.result with
    | .ok none => o.decoder.feedAll o.buffer (fed + 1) chunks
    | _ => (fed + 1, o)

end Decoder
end Head
end HttpWire
