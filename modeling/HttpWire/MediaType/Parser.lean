import HttpWire.Header.Field
import HttpWire.MediaType

/-! Reading media types: a type, a slash, a subtype, then parameters after semicolons. -/
namespace HttpWire.MediaType

inductive Problem
  /-- The type or the subtype is empty. -/
  | emptyType
  /-- No slash follows the type. -/
  | missingSubtype
  /-- Something other than a semicolon follows. -/
  | trailingText
  /-- An attribute is empty, or lacks an equals sign and something after it. -/
  | missingValue
  /-- A quoted string has no closing quote. -/
  | unterminatedQuote
deriving DecidableEq, Repr

/-- A problem and the whole text it was found in. -/
structure ParseError where
  problem : Problem
  source : String
deriving DecidableEq, Repr

/-- The longest token at the front, perhaps empty, and the rest. -/
def token (cs : List Char) : List Char × List Char :=
  (cs.takeWhile Field.isTokenChar, cs.dropWhile Field.isTokenChar)

def skipSpaces (cs : List Char) : List Char :=
  cs.dropWhile fun c => c == ' ' || c == '\t'

/-- Pass over linear white space: a line end, if there is one, then spaces and tabs. -/
def skipBlank : List Char → List Char
  | '\r' :: '\n' :: cs => skipSpaces cs
  | cs => skipSpaces cs

/-- The rest of a quoted string, after its opening quote. A backslash makes the next character
stand for itself. -/
def quotedRest? : List Char → Option (List Char × List Char)
  | [] => none
  | '"' :: cs => some ([], cs)
  | '\\' :: c :: cs => (quotedRest? cs).map fun (v, rest) => (c :: v, rest)
  | '\\' :: [] => none
  | c :: cs => (quotedRest? cs).map fun (v, rest) => (c :: v, rest)

/-- The value of a parameter. Where something follows the equals sign that starts neither a token
nor a quoted string, the value is empty. -/
def value : List Char → Except Problem (List Char × List Char)
  | [] => .error .missingValue
  | '"' :: cs =>
    match quotedRest? cs with
    | none => .error .unterminatedQuote
    | some r => .ok r
  | cs => .ok (token cs)

theorem length_skipSpaces_le (cs : List Char) : (skipSpaces cs).length ≤ cs.length :=
  (List.dropWhile_sublist _).length_le

theorem length_skipBlank_le (cs : List Char) : (skipBlank cs).length ≤ cs.length := by
  fun_cases skipBlank cs with
  | case1 cs => have := length_skipSpaces_le cs; simp only [List.length_cons]; omega
  | case2 => exact length_skipSpaces_le cs

theorem token_append (cs : List Char) : (token cs).1 ++ (token cs).2 = cs := by
  simp [token]

theorem length_token_le (cs : List Char) : (token cs).2.length ≤ cs.length := by
  have := congrArg List.length (token_append cs)
  simp only [List.length_append] at this
  omega

theorem length_quotedRest?_le {cs v rest : List Char} (h : quotedRest? cs = some (v, rest)) :
    rest.length ≤ cs.length := by
  fun_induction quotedRest? cs generalizing v with
  | case1 => simp at h
  | case2 => simp at h; simp [h]
  | case3 c cs ih =>
    simp at h
    obtain ⟨u, hu, _⟩ := h
    have := ih hu
    simp only [List.length_cons]
    omega
  | case4 => simp at h
  | case5 c cs _ _ _ ih =>
    simp at h
    obtain ⟨u, hu, _⟩ := h
    have := ih hu
    simp only [List.length_cons]
    omega

theorem length_value_le {cs v rest : List Char} (h : value cs = .ok (v, rest)) :
    rest.length ≤ cs.length := by
  fun_cases value cs with
  | case1 => simp [value] at h
  | case2 cs hq => simp [value, hq] at h
  | case3 cs r hq =>
    simp [value, hq] at h
    have := length_quotedRest?_le (h ▸ hq)
    simp only [List.length_cons]
    omega
  | case4 _ _ =>
    simp_all [value]
    have := length_token_le cs
    simp_all

/-- The attribute and the value of the parameter at the front, after its semicolon. -/
def parameter (cs : List Char) : Except Problem ((List Char × List Char) × List Char) :=
  match token (skipBlank cs) with
  | (a :: name, '=' :: rest) =>
    match value rest with
    | .error p => .error p
    | .ok (v, rest) => .ok ((a :: name, v), rest)
  | _ => .error .missingValue

theorem length_parameter_le {cs rest : List Char} {p : List Char × List Char}
    (h : parameter cs = .ok (p, rest)) : rest.length ≤ cs.length := by
  unfold parameter at h
  split at h
  · rename_i a name rest' ht
    have h₁ := length_skipBlank_le cs
    have h₂ := length_token_le (skipBlank cs)
    rw [ht] at h₂
    split at h
    · simp at h
    · rename_i v rest'' hv
      have h₃ := length_value_le hv
      simp only [Except.ok.injEq, Prod.mk.injEq] at h
      simp only [List.length_cons] at h₂
      rw [← h.2]
      omega
  · simp at h

def parameters (cs : List Char) : Except Problem (List (List Char × List Char)) :=
  match hs : skipBlank cs with
  | [] => .ok []
  | ';' :: rest =>
    match hp : parameter rest with
    | .error p => .error p
    | .ok (p, rest') =>
      have : rest'.length < cs.length := by
        have h₁ := length_skipBlank_le cs
        have h₂ := length_parameter_le hp
        rw [hs, List.length_cons] at h₁
        omega
      match parameters rest' with
      | .error p => .error p
      | .ok ps => .ok (p :: ps)
  | _ => .error .trailingText
termination_by cs.length

/-- The label of the last parameter named charset, whatever the case of the name. -/
def charsetOf (parameters : List (List Char × List Char)) : Option String :=
  ((parameters.filter fun p => Text.sameLetters (String.ofList p.1) "charset").getLast?).map
    fun p => String.ofList p.2

/-- The charset of a type that names none: texts are Latin-1, and JSON is UTF-8. -/
def defaultCharset (kind subtype : List Char) : Option String :=
  if Text.sameLetters (String.ofList kind) "text" then some "ISO-8859-1"
  else if Text.sameLetters (String.ofList kind) "application" &&
      Text.sameLetters (String.ofList subtype) "json" then some "UTF-8"
  else none

/-- Read a media type, or say the first thing wrong with it. -/
def parseChars (cs : List Char) : Except Problem MediaType :=
  match token cs with
  | (kind, '/' :: rest) =>
    let (subtype, rest) := token rest
    if kind = [] ∨ subtype = [] then .error .emptyType
    else
      match parameters rest with
      | .error p => .error p
      | .ok ps => .ok {
          mime := String.ofList (kind ++ '/' :: subtype)
          charset := (charsetOf ps).orElse fun _ => defaultCharset kind subtype }
  | _ => .error .missingSubtype

def parse (source : String) : Except ParseError MediaType :=
  (parseChars source.toList).mapError (⟨·, source⟩)

def ParseError.message (e : ParseError) : String :=
  let what := match e.problem with
    | .emptyType => "empty media type in "
    | .missingSubtype => "media type has no sub-type: "
    | .trailingText => "unknown text following media type: "
    | .missingValue => "parameter has no value: "
    | .unterminatedQuote => "unterminated quoted string: "
  what ++ Text.quoted e.source

end HttpWire.MediaType
