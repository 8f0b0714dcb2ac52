import HttpWire.MediaType.Parser
import HttpWire.Proofs.Header.Characters
import HttpWire.Proofs.Text.Trimmed

/-! The grammar of media types. A form is a derivation in it, and a text has at most one. -/
namespace HttpWire.MediaType

/-- Linear white space: a line end, if there is one, then spaces and tabs. -/
structure Blank where
  lineEnd : Bool
  spaces : List Char
  isSpace : ∀ c ∈ spaces, Text.isSpaceOrTab c = true

/-- One or more token characters. -/
structure Token where
  chars : List Char
  ne_nil : chars ≠ []
  isToken : ∀ c ∈ chars, Field.isTokenChar c = true

/-- A character between quotes, by itself or behind a backslash. -/
inductive Inner
  | bare (c : Char) (ne_quote : c ≠ '"') (ne_backslash : c ≠ '\\')
  | escaped (c : Char)

inductive Value
  | token (t : Token)
  | quoted (inner : List Inner)

/-- A parameter with the white space around its semicolon. Its value may be missing. -/
structure Parameter where
  before : Blank
  after : Blank
  name : Token
  value : Option Value

structure Form where
  kind : Token
  subtype : Token
  parameters : List Parameter
  trailing : Blank

def Blank.text (b : Blank) : List Char :=
  if b.lineEnd then '\r' :: '\n' :: b.spaces else b.spaces

/-- So many spaces, and no line end. -/
def Blank.ofSpaces (n : Nat) : Blank where
  lineEnd := false
  spaces := List.replicate n ' '
  isSpace := fun c hc => by rw [List.eq_of_mem_replicate hc]; rfl

/-- A text that is a token. -/
def Token.ofString (s : String) (h : Field.isToken s = true) : Token where
  chars := s.toList
  ne_nil := by
    rintro hnil
    simp [Field.isToken, hnil] at h
  isToken := by
    rw [Field.isToken, Bool.and_eq_true] at h
    exact List.all_eq_true.1 h.2

def Inner.char : Inner → Char
  | bare c _ _ => c
  | escaped c => c

def Inner.text : Inner → List Char
  | bare c _ _ => [c]
  | escaped c => ['\\', c]

def Value.text : Value → List Char
  | token t => t.chars
  | quoted inner => '"' :: (inner.flatMap Inner.text ++ ['"'])

/-- What a value stands for. -/
def Value.content : Value → List Char
  | token t => t.chars
  | quoted inner => inner.map Inner.char

/-- A missing value is written with no characters. -/
def written (v : Option Value) : List Char := v.elim [] Value.text

def Parameter.text (p : Parameter) : List Char :=
  p.before.text ++ ';' :: (p.after.text ++ (p.name.chars ++ '=' :: written p.value))

/-- What follows the subtype. -/
def tail (ps : List Parameter) (trailing : Blank) : List Char :=
  ps.flatMap Parameter.text ++ trailing.text

def Form.text (f : Form) : List Char :=
  f.kind.chars ++ '/' :: (f.subtype.chars ++ tail f.parameters f.trailing)

/-- No value is missing. -/
def Form.Complete (f : Form) : Prop := ∀ p ∈ f.parameters, p.value.isSome = true

/-- The text is a type, a slash, a subtype, and parameters with their values. -/
def Derivable (s : String) : Prop := ∃ f : Form, f.Complete ∧ f.text = s.toList

theorem Token.isToken_ofList (t : Token) : Field.isToken (String.ofList t.chars) = true := by
  rw [Field.isToken, String.toList_ofList, List.all_eq_true.2 t.isToken]
  simp [t.ne_nil]

theorem tail_cons (p : Parameter) (ps : List Parameter) (trailing : Blank) :
    tail (p :: ps) trailing = p.text ++ tail ps trailing := by
  rw [tail, List.flatMap_cons, List.append_assoc, tail]

theorem Parameter.text_append (p : Parameter) (rest : List Char) :
    p.text ++ rest = p.before.text ++
      ';' :: (p.after.text ++ (p.name.chars ++ '=' :: (written p.value ++ rest))) := by
  simp only [Parameter.text, List.append_assoc, List.cons_append]

section Ends
variable {t : Token} {b : Blank} {rest : List Char} {c : Char}

/-- White space does not go on in `rest`. -/
def EndsBlank (rest : List Char) : Prop := ∀ c ∈ rest.head?, c ∉ [' ', '\t', '\r']

/-- A token does not go on in `rest`. -/
def EndsToken (rest : List Char) : Prop := ∀ c ∈ rest.head?, Field.isTokenChar c = false

/-- White space or a semicolon comes first in `rest`, if anything does. -/
def EndsValue (rest : List Char) : Prop := ∀ c ∈ rest.head?, c ∈ [' ', '\t', '\r', ';']

theorem endsBlank_nil : EndsBlank [] := by simp [EndsBlank]

theorem endsBlank_cons (h : c ∉ [' ', '\t', '\r']) : EndsBlank (c :: rest) := by
  intro d hd
  obtain rfl : c = d := Option.some.inj hd
  exact h

theorem endsToken_cons (h : Field.isTokenChar c = false) : EndsToken (c :: rest) := by
  intro d hd
  obtain rfl : c = d := Option.some.inj hd
  exact h

theorem isTokenChar_of_mem_delimiters (h : c ∈ [' ', '\t', '\r', ';']) :
    Field.isTokenChar c = false := by
  simp only [List.mem_cons, List.not_mem_nil, or_false] at h
  rcases h with rfl | rfl | rfl | rfl <;> decide

theorem EndsValue.endsToken (h : EndsValue rest) : EndsToken rest :=
  fun c hc => isTokenChar_of_mem_delimiters (h c hc)

theorem EndsValue.head?_ne_quote (h : EndsValue rest) : '"' ∉ rest.head? := by
  intro hquote
  simpa using h '"' hquote

theorem Token.isTokenChar_of_mem_head? (h : c ∈ (t.chars ++ rest).head?) :
    Field.isTokenChar c = true := by
  obtain ⟨chars, ne_nil, isToken⟩ := t
  cases chars with
  | nil => exact absurd rfl ne_nil
  | cons d chars =>
    have hd : d = c := Option.some.inj h
    exact hd ▸ isToken d List.mem_cons_self

theorem Token.endsBlank_append (t : Token) (rest : List Char) : EndsBlank (t.chars ++ rest) := by
  intro c hc hblank
  have htoken := Token.isTokenChar_of_mem_head? hc
  rw [isTokenChar_of_mem_delimiters (List.mem_append_left [';'] hblank)] at htoken
  simp at htoken

theorem eq_of_isSpaceOrTab (h : Text.isSpaceOrTab c = true) : c = ' ' ∨ c = '\t' := by
  simpa [Text.isSpaceOrTab] using h

theorem Blank.mem_of_mem_text (h : c ∈ b.text) : c ∈ [' ', '\t', '\r', '\n'] := by
  obtain ⟨lineEnd, spaces, isSpace⟩ := b
  have hspaces : c ∈ spaces → c ∈ [' ', '\t', '\r', '\n'] := by
    intro hc
    rcases eq_of_isSpaceOrTab (isSpace c hc) with rfl | rfl <;> simp
  cases lineEnd with
  | true =>
    have hcons : c ∈ '\r' :: '\n' :: spaces := h
    simp only [List.mem_cons] at hcons
    rcases hcons with rfl | rfl | hc
    · simp
    · simp
    · exact hspaces hc
  | false => exact hspaces h

/-- The first character of white space, or else of what comes after it. -/
theorem Blank.mem_head?_append (h : c ∈ (b.text ++ rest).head?) :
    c ∈ [' ', '\t', '\r'] ∨ c ∈ rest.head? := by
  obtain ⟨lineEnd, spaces, isSpace⟩ := b
  cases lineEnd with
  | true =>
    have hc : '\r' = c := Option.some.inj h
    simp [← hc]
  | false =>
    cases spaces with
    | nil => exact .inr h
    | cons d spaces =>
      have hd : d = c := Option.some.inj h
      rcases eq_of_isSpaceOrTab (isSpace d List.mem_cons_self) with hspace | htab
      · simp [← hd, hspace]
      · simp [← hd, htab]

theorem Blank.endsValue_append (b : Blank) (h : EndsValue rest) : EndsValue (b.text ++ rest) := by
  intro c hc
  rcases Blank.mem_head?_append hc with hblank | hrest
  · exact List.mem_append_left [';'] hblank
  · exact h c hrest

theorem endsValue_tail (ps : List Parameter) (b : Blank) : EndsValue (tail ps b) := by
  cases ps with
  | nil =>
    have hnil : EndsValue [] := by simp [EndsValue]
    have hblank := b.endsValue_append hnil
    rwa [List.append_nil] at hblank
  | cons p ps =>
    rw [tail_cons, p.text_append]
    refine p.before.endsValue_append fun c hc => ?_
    obtain rfl : ';' = c := Option.some.inj hc
    simp

end Ends

section Leaves
variable {rest rest' : List Char}

theorem skipSpaces_append {spaces : List Char} (h : ∀ c ∈ spaces, Text.isSpaceOrTab c = true)
    (hrest : EndsBlank rest) : skipSpaces (spaces ++ rest) = rest := by
  have hfirst : ∀ c ∈ rest.head?, Text.isSpaceOrTab c = false := by
    intro c hc
    have hnot := hrest c hc
    simp only [List.mem_cons, List.not_mem_nil, or_false, not_or] at hnot
    simp [Text.isSpaceOrTab, hnot]
  have hdrop : skipSpaces (spaces ++ rest) = rest.dropWhile Text.isSpaceOrTab :=
    List.dropWhile_append_of_pos h
  exact hdrop.trans (Text.dropWhile_eq_self_of_first hfirst)

theorem skipBlank_of_head? {cs : List Char} (h : '\r' ∉ cs.head?) :
    skipBlank cs = skipSpaces cs := by
  fun_cases skipBlank cs with
  | case1 cs => simp at h
  | case2 => rfl

/-- All of the white space in front is passed over. -/
theorem skipBlank_append (b : Blank) (hrest : EndsBlank rest) :
    skipBlank (b.text ++ rest) = rest := by
  obtain ⟨lineEnd, spaces, isSpace⟩ := b
  have hspaces := skipSpaces_append isSpace hrest
  cases lineEnd with
  | true => exact hspaces
  | false =>
    refine (skipBlank_of_head? fun hr => ?_).trans hspaces
    cases spaces with
    | nil => exact hrest _ hr (by simp)
    | cons d spaces =>
      have hd : d = '\r' := Option.some.inj hr
      have hspace := isSpace d List.mem_cons_self
      rw [hd] at hspace
      exact absurd hspace (by decide)

theorem token_append_of_all {front : List Char} (h : ∀ c ∈ front, Field.isTokenChar c = true)
    (hrest : EndsToken rest) : token (front ++ rest) = (front, rest) := by
  have hdrop := Text.dropWhile_eq_self_of_first hrest
  have htake : rest.takeWhile Field.isTokenChar = [] := by
    have hjoin := List.takeWhile_append_dropWhile (p := Field.isTokenChar) (l := rest)
    rw [hdrop] at hjoin
    exact List.append_left_eq_self.1 hjoin
  rw [token, List.takeWhile_append_of_pos h, List.dropWhile_append_of_pos h, htake, hdrop,
    List.append_nil]

theorem Blank.text_injective : Function.Injective Blank.text := by
  intro b b' h
  obtain ⟨lineEnd, spaces, isSpace⟩ := b
  obtain ⟨lineEnd', spaces', isSpace'⟩ := b'
  cases lineEnd <;> cases lineEnd'
  · have hspaces : spaces = spaces' := h
    rw [Blank.mk.injEq]
    exact ⟨rfl, hspaces⟩
  · have hspaces : spaces = '\r' :: '\n' :: spaces' := h
    have hspace := isSpace '\r' (hspaces ▸ List.mem_cons_self)
    exact absurd hspace (by decide)
  · have hspaces : '\r' :: '\n' :: spaces = spaces' := h
    have hspace := isSpace' '\r' (hspaces ▸ List.mem_cons_self)
    exact absurd hspace (by decide)
  · have hspaces : '\r' :: '\n' :: spaces = '\r' :: '\n' :: spaces' := h
    rw [Blank.mk.injEq]
    exact ⟨rfl, (List.cons.inj (List.cons.inj hspaces).2).2⟩

theorem Blank.append_inj {b b' : Blank} (h : b.text ++ rest = b'.text ++ rest')
    (hrest : EndsBlank rest) (hrest' : EndsBlank rest') : b = b' ∧ rest = rest' := by
  have heq : rest = rest' := by
    rw [← skipBlank_append b hrest, h, skipBlank_append b' hrest']
  rw [heq] at h
  exact ⟨Blank.text_injective (List.append_cancel_right h), heq⟩

theorem Token.append_inj {t t' : Token} (h : t.chars ++ rest = t'.chars ++ rest')
    (hrest : EndsToken rest) (hrest' : EndsToken rest') : t = t' ∧ rest = rest' := by
  have hread := token_append_of_all t.isToken hrest
  rw [h, token_append_of_all t'.isToken hrest', Prod.mk.injEq] at hread
  rw [Token.mk.injEq]
  exact ⟨hread.1.symm, hread.2.symm⟩

theorem Inner.append_inj {inner inner' : List Inner}
    (h : inner.flatMap Inner.text ++ '"' :: rest = inner'.flatMap Inner.text ++ '"' :: rest') :
    inner = inner' ∧ rest = rest' := by
  induction inner generalizing inner' with
  | nil =>
    cases inner' with
    | nil => exact ⟨rfl, (List.cons.inj h).2⟩
    | cons i' inner' =>
      cases i' with
      | bare c ne_quote _ => exact absurd (List.cons.inj h).1.symm ne_quote
      | escaped c => exact absurd (List.cons.inj h).1 (by decide)
  | cons i inner ih =>
    cases inner' with
    | nil =>
      cases i with
      | bare c ne_quote _ => exact absurd (List.cons.inj h).1 ne_quote
      | escaped c => exact absurd (List.cons.inj h).1 (by decide)
    | cons i' inner' =>
      rw [List.flatMap_cons, List.flatMap_cons, List.append_assoc, List.append_assoc] at h
      cases i <;> cases i'
      case bare.bare =>
        obtain ⟨hc, hrest⟩ := List.cons.inj h
        obtain ⟨rfl, hends⟩ := ih hrest
        exact ⟨by simp only [hc], hends⟩
      case bare.escaped c _ ne_backslash _ =>
        exact absurd (List.cons.inj h).1 ne_backslash
      case escaped.bare _ c _ ne_backslash =>
        exact absurd (List.cons.inj h).1.symm ne_backslash
      case escaped.escaped =>
        obtain ⟨hc, hrest⟩ := List.cons.inj (List.cons.inj h).2
        obtain ⟨rfl, hends⟩ := ih hrest
        exact ⟨by rw [hc], hends⟩

end Leaves

section Written
variable {t : Token} {rest rest' : List Char}

theorem Token.append_ne_of_endsToken (hrest : EndsToken rest) : t.chars ++ rest' ≠ rest := by
  rintro rfl
  have hne : t.chars ++ rest' ≠ [] := List.append_ne_nil_of_left_ne_nil t.ne_nil rest'
  have hhead := List.head?_eq_some_head hne
  have htoken := Token.isTokenChar_of_mem_head? hhead
  rw [hrest _ hhead] at htoken
  simp at htoken

theorem Token.append_ne_quote_cons : t.chars ++ rest ≠ '"' :: rest' :=
  Token.append_ne_of_endsToken (endsToken_cons (by decide))

theorem EndsValue.quote_cons_ne (hrest : EndsValue rest) : '"' :: rest' ≠ rest := by
  rintro rfl
  exact hrest.head?_ne_quote rfl

theorem Value.quoted_text_append (inner : List Inner) (rest : List Char) :
    (quoted inner).text ++ rest = '"' :: (inner.flatMap Inner.text ++ '"' :: rest) := by
  simp [text]

/-- A value, or that it is missing, is told by where it begins. -/
theorem written_append_inj {v v' : Option Value} (h : written v ++ rest = written v' ++ rest')
    (hrest : EndsValue rest) (hrest' : EndsValue rest') : v = v' ∧ rest = rest' := by
  match v, v' with
  | none, none => exact ⟨rfl, h⟩
  | none, some (.token t') => exact absurd h.symm (Token.append_ne_of_endsToken hrest.endsToken)
  | none, some (.quoted inner') => exact absurd h.symm hrest.quote_cons_ne
  | some (.token t), none => exact absurd h (Token.append_ne_of_endsToken hrest'.endsToken)
  | some (.quoted inner), none => exact absurd h hrest'.quote_cons_ne
  | some (.token t), some (.quoted inner') => exact absurd h Token.append_ne_quote_cons
  | some (.quoted inner), some (.token t') => exact absurd h.symm Token.append_ne_quote_cons
  | some (.token t), some (.token t') =>
    obtain ⟨rfl, hends⟩ := Token.append_inj h hrest.endsToken hrest'.endsToken
    exact ⟨rfl, hends⟩
  | some (.quoted inner), some (.quoted inner') =>
    have hquoted : (Value.quoted inner).text ++ rest = (Value.quoted inner').text ++ rest' := h
    rw [Value.quoted_text_append, Value.quoted_text_append] at hquoted
    obtain ⟨rfl, hends⟩ := Inner.append_inj (List.cons.inj hquoted).2
    exact ⟨rfl, hends⟩

end Written

section Texts
variable {rest rest' : List Char}

theorem Parameter.append_inj {p p' : Parameter} (h : p.text ++ rest = p'.text ++ rest')
    (hrest : EndsValue rest) (hrest' : EndsValue rest') : p = p' ∧ rest = rest' := by
  obtain ⟨before, after, name, value⟩ := p
  obtain ⟨before', after', name', value'⟩ := p'
  rw [Parameter.text_append, Parameter.text_append] at h
  have hsemicolon {l : List Char} : EndsBlank (';' :: l) := endsBlank_cons (by decide)
  have hequals {l : List Char} : EndsToken ('=' :: l) := endsToken_cons (by decide)
  obtain ⟨rfl, h⟩ := Blank.append_inj h hsemicolon hsemicolon
  obtain ⟨rfl, h⟩ := Blank.append_inj (List.cons.inj h).2 (name.endsBlank_append _)
    (name'.endsBlank_append _)
  obtain ⟨rfl, h⟩ := Token.append_inj h hequals hequals
  obtain ⟨rfl, hends⟩ := written_append_inj (List.cons.inj h).2 hrest hrest'
  exact ⟨rfl, hends⟩

theorem Parameter.append_ne_blank {p : Parameter} {b : Blank} : p.text ++ rest ≠ b.text := by
  -- a semicolon is no white space
  intro h
  have hmem : ';' ∈ p.text ++ rest := by
    rw [Parameter.text_append]
    exact List.mem_append_right _ List.mem_cons_self
  rw [h] at hmem
  exact absurd (Blank.mem_of_mem_text hmem) (by decide)

theorem tail_inj {ps ps' : List Parameter} {b b' : Blank} (h : tail ps b = tail ps' b') :
    ps = ps' ∧ b = b' := by
  induction ps generalizing ps' with
  | nil =>
    cases ps' with
    | nil => exact ⟨rfl, Blank.text_injective h⟩
    | cons p' ps' =>
      rw [tail_cons] at h
      exact absurd h.symm Parameter.append_ne_blank
  | cons p ps ih =>
    rw [tail_cons] at h
    cases ps' with
    | nil => exact absurd h Parameter.append_ne_blank
    | cons p' ps' =>
      rw [tail_cons] at h
      obtain ⟨rfl, hrest⟩ := Parameter.append_inj h (endsValue_tail ps b) (endsValue_tail ps' b')
      obtain ⟨rfl, rfl⟩ := ih hrest
      exact ⟨rfl, rfl⟩

/-- A text has at most one derivation. -/
theorem Form.text_injective : Function.Injective Form.text := by
  intro f f' h
  obtain ⟨kind, subtype, parameters, trailing⟩ := f
  obtain ⟨kind', subtype', parameters', trailing'⟩ := f'
  have hslash {l : List Char} : EndsToken ('/' :: l) := endsToken_cons (by decide)
  obtain ⟨rfl, h⟩ := Token.append_inj h hslash hslash
  obtain ⟨rfl, h⟩ := Token.append_inj (List.cons.inj h).2
    (endsValue_tail parameters trailing).endsToken (endsValue_tail parameters' trailing').endsToken
  obtain ⟨rfl, rfl⟩ := tail_inj h
  rfl

end Texts

end HttpWire.MediaType
