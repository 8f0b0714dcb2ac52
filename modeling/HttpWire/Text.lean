/-! Texts: compared without regard to case, trimmed, divided, read as numerals, and written on one
line as they stand in messages and descriptions. -/
namespace HttpWire.Text

/-! Letters. -/

/-- The ASCII letters lowered. No other character changes. -/
def lower (s : String) : String := String.ofList (s.toList.map Char.toLower)

/-- Equal up to the case of ASCII letters. -/
def sameLetters (a b : String) : Bool := lower a == lower b

@[simp] theorem toList_lower (s : String) : (lower s).toList = s.toList.map Char.toLower := by
  simp [lower]

/-! Blanks, and characters taken away at both ends. -/

/-- The characters with the Unicode property White_Space. -/
def isBlank (c : Char) : Bool :=
  let n := c.toNat
  (9 ≤ n && n ≤ 13) || n == 0x20 || n == 0x85 || n == 0xA0 || n == 0x1680 ||
    (0x2000 ≤ n && n ≤ 0x200A) || n == 0x2028 || n == 0x2029 || n == 0x202F || n == 0x205F ||
    n == 0x3000

def isSpaceOrTab (c : Char) : Bool := c == ' ' || c == '\t'

def trim (p : Char → Bool) (cs : List Char) : List Char :=
  ((cs.dropWhile p).reverse.dropWhile p).reverse

/-! The first of some character. -/

/-- The text before the first `c` and the text after it. -/
def splitFirst? (c : Char) : List Char → Option (List Char × List Char)
  | [] => none
  | x :: xs => if x = c then some ([], xs) else
    (splitFirst? c xs).map fun (before, after) => (x :: before, after)

theorem splitFirst?_eq_some {c : Char} {cs before after : List Char}
    (h : splitFirst? c cs = some (before, after)) : cs = before ++ c :: after ∧ c ∉ before := by
  induction cs generalizing before with
  | nil => simp [splitFirst?] at h
  | cons x xs ih =>
    by_cases hx : x = c
    · simp [splitFirst?, hx] at h
      simp [h, hx]
    · simp [splitFirst?, hx] at h
      obtain ⟨b, hb, rfl⟩ := h
      obtain ⟨h₁, h₂⟩ := ih hb
      exact ⟨by simp [h₁], by simp [h₂, Ne.symm hx]⟩

theorem splitFirst?_eq_none {c : Char} {cs : List Char} (h : c ∉ cs) :
    splitFirst? c cs = none := by
  cases hsplit : splitFirst? c cs with
  | none => rfl
  | some parts =>
    obtain ⟨before, after⟩ := parts
    obtain ⟨rfl, -⟩ := splitFirst?_eq_some hsplit
    exact absurd (List.mem_append_right _ List.mem_cons_self) h

theorem splitFirst?_append {c : Char} {before : List Char} (h : c ∉ before)
    (after : List Char) : splitFirst? c (before ++ c :: after) = some (before, after) := by
  induction before with
  | nil => rw [List.nil_append, splitFirst?, if_pos rfl]
  | cons x before ih =>
    have hne : ¬ x = c := fun heq => h (heq ▸ List.mem_cons_self)
    rw [List.cons_append, splitFirst?, if_neg hne, ih fun hc => h (List.mem_cons_of_mem _ hc)]
    rfl

/-! Unsigned decimal numerals of a bounded size. -/

def digit? (c : Char) : Option Nat :=
  if '0' ≤ c ∧ c ≤ '9' then some (c.toNat - 48) else none

/-- The value of a run of digits, continued from `n`. -/
def digits? (n : Nat) : List Char → Option Nat
  | [] => some n
  | c :: cs => (digit? c).bind fun d => digits? (10 * n + d) cs

/-- One plus sign may stand in front of the digits. -/
def dropPlus : List Char → List Char
  | '+' :: cs => cs
  | cs => cs

/-- One or more digits, with a plus sign allowed in front, of a value below `limit`. -/
def numeral? (limit : Nat) (cs : List Char) : Option Nat :=
  if dropPlus cs = [] then none else (digits? 0 (dropPlus cs)).filter (· < limit)

/-! Quoted text. -/

/-- A character by its number, in hexadecimal without padding. -/
def numbered (c : Char) : List Char :=
  '\\' :: 'u' :: '{' :: (Nat.toDigits 16 c.toNat ++ ['}'])

/-- Control characters, the no-break space and the soft hyphen do not show as themselves. -/
def isHidden (c : Char) : Bool :=
  let n := c.toNat
  n < 0x20 || (0x7F ≤ n && n ≤ 0xA0) || n == 0xAD

/-- The form a character has between quotes. An apostrophe needs no escape. -/
def escaped (c : Char) : List Char :=
  if c = '"' then ['\\', '"']
  else if c = '\\' then ['\\', '\\']
  else if c = '\n' then ['\\', 'n']
  else if c = '\r' then ['\\', 'r']
  else if c = '\t' then ['\\', 't']
  else if c.toNat = 0 then ['\\', '0']
  else if isHidden c then numbered c
  else [c]

def quoted (s : String) : String :=
  String.ofList ('"' :: (s.toList.flatMap escaped ++ ['"']))

/-! Descriptions of values: records with named fields, options, lists, dictionaries. -/

def commaSeparated (items : List String) : String := String.intercalate ", " items

def record (name : String) (fields : List (String × String)) : String :=
  if fields.isEmpty then name else
    name ++ " \x7b " ++ commaSeparated (fields.map fun (f, v) => f ++ ": " ++ v) ++ " \x7d"

def optional : Option String → String
  | none => "None"
  | some v => "Some(" ++ v ++ ")"

def listed (items : List String) : String := "[" ++ commaSeparated items ++ "]"

def dictionary (items : List (String × String)) : String :=
  "\x7b" ++ commaSeparated (items.map fun (k, v) => k ++ ": " ++ v) ++ "\x7d"

def truth (b : Bool) : String := if b then "true" else "false"

end HttpWire.Text
