import HttpWire.Proofs.MediaType.Form

/-! Media types are read by their grammar, with one exception: a parameter may lack its value,
unless its equals sign ends the text. -/
namespace HttpWire.MediaType

/-- What a value, perhaps missing, is read as. -/
def meaning (v : Option Value) : List Char := v.elim [] Value.content

def Parameter.pair (p : Parameter) : List Char × List Char := (p.name.chars, meaning p.value)

/-- What a form is read as. -/
def Form.mediaType (f : Form) : MediaType where
  mime := String.ofList (f.kind.chars ++ '/' :: f.subtype.chars)
  charset := (charsetOf (f.parameters.map Parameter.pair)).orElse fun _ =>
    defaultCharset f.kind.chars f.subtype.chars

theorem Form.toList_mime (f : Form) :
    f.mediaType.mime.toList = f.kind.chars ++ '/' :: f.subtype.chars := String.toList_ofList

theorem Form.charset_eq (f : Form) : f.mediaType.charset =
    (charsetOf (f.parameters.map Parameter.pair)).or
      (defaultCharset f.kind.chars f.subtype.chars) := Option.orElse_eq_or

section LastCharacter

theorem Value.exists_getLast?_text (v : Value) : ∃ c, v.text.getLast? = some c ∧ c ≠ '=' := by
  cases v with
  | token t =>
    have hlast := List.getLast?_eq_some_getLast t.ne_nil
    have htoken := t.isToken _ (List.getLast_mem t.ne_nil)
    exact ⟨_, hlast, Field.ne_of_isTokenChar htoken (by decide)⟩
  | quoted inner =>
    refine ⟨'"', ?_, by decide⟩
    exact List.getLast?_concat (l := '"' :: inner.flatMap Inner.text)

/-- An equals sign comes last if it does in what follows the parameter, or if nothing follows it and
its value is missing. -/
theorem Parameter.getLast?_append_ne_iff (p : Parameter) (rest : List Char) :
    (p.text ++ rest).getLast? ≠ some '=' ↔
      (p.value = none → rest ≠ []) ∧ rest.getLast? ≠ some '=' := by
  have hsplit : p.text ++ rest = (p.before.text ++ ';' :: (p.after.text ++ p.name.chars)) ++
      '=' :: (written p.value ++ rest) := by
    simp [Parameter.text]
  rw [hsplit, List.getLast?_append_cons]
  by_cases hrest : rest = []
  · subst hrest
    cases p.value with
    | none => simp [written]
    | some v =>
      obtain ⟨c, hlast, hc⟩ := v.exists_getLast?_text
      simp [written, List.getLast?_cons, hlast, hc]
  · have hlast := List.getLast?_append_of_ne_nil ('=' :: written p.value) hrest
    rw [← List.cons_append, hlast]
    simp [hrest]

theorem getLast?_tail_ne {ps : List Parameter} (h : ∀ p ∈ ps, p.value.isSome = true) (b : Blank) :
    (tail ps b).getLast? ≠ some '=' := by
  induction ps with
  | nil =>
    intro hlast
    exact absurd (Blank.mem_of_mem_text (List.mem_of_getLast? hlast)) (by decide)
  | cons p ps ih =>
    obtain ⟨hp, hps⟩ := List.forall_mem_cons.1 h
    rw [tail_cons, p.getLast?_append_ne_iff]
    refine ⟨fun hnone => ?_, ih hps⟩
    simp [hnone] at hp

theorem Form.getLast?_text_ne_iff (f : Form) :
    f.text.getLast? ≠ some '=' ↔ (tail f.parameters f.trailing).getLast? ≠ some '=' := by
  rw [Form.text, List.getLast?_append_cons, ← List.cons_append]
  by_cases htail : tail f.parameters f.trailing = []
  · have hlast := List.getLast?_eq_some_getLast f.subtype.ne_nil
    have htoken := f.subtype.isToken _ (List.getLast_mem f.subtype.ne_nil)
    have hne := Field.ne_of_isTokenChar htoken (d := '=') (by decide)
    simp [htail, List.getLast?_cons, hlast, hne]
  · rw [List.getLast?_append_of_ne_nil _ htail]

/-- A text without missing values does not end in an equals sign. -/
theorem Form.Complete.getLast?_ne {f : Form} (h : f.Complete) : f.text.getLast? ≠ some '=' :=
  f.getLast?_text_ne_iff.2 (getLast?_tail_ne h f.trailing)

end LastCharacter

section Written
variable {rest : List Char}

theorem quotedRest?_append (inner : List Inner) (rest : List Char) :
    quotedRest? (inner.flatMap Inner.text ++ '"' :: rest) = some (inner.map Inner.char, rest) := by
  induction inner with
  | nil => rfl
  | cons i inner ih =>
    rw [List.flatMap_cons, List.append_assoc]
    cases i with
    | bare c ne_quote ne_backslash =>
      rw [Inner.text, List.singleton_append, quotedRest?.eq_5 c _ ne_quote
        (fun _ _ hc _ => ne_backslash hc) (fun hc _ => ne_backslash hc), ih]
      rfl
    | escaped c =>
      rw [Inner.text, List.cons_append, List.singleton_append, quotedRest?, ih]
      rfl

theorem value_of_ne_quote {cs : List Char} (h : cs ≠ []) (hquote : '"' ∉ cs.head?) :
    value cs = .ok (token cs) := by
  refine value.eq_3 cs h fun rest hcs => hquote ?_
  rw [hcs]
  rfl

theorem value_written_append {v : Option Value} (hv : v = none → rest ≠ [])
    (hrest : EndsValue rest) : value (written v ++ rest) = .ok (meaning v, rest) := by
  match v with
  | none =>
    have hread := value_of_ne_quote (hv rfl) hrest.head?_ne_quote
    have htoken := token_append_of_all (List.forall_mem_nil _) hrest.endsToken
    exact hread.trans (congrArg _ htoken)
  | some (.token t) =>
    have hne : t.chars ++ rest ≠ [] := List.append_ne_nil_of_left_ne_nil t.ne_nil rest
    have hquote : '"' ∉ (t.chars ++ rest).head? := fun hc =>
      absurd (Token.isTokenChar_of_mem_head? hc) (by decide)
    have htoken := token_append_of_all t.isToken hrest.endsToken
    exact (value_of_ne_quote hne hquote).trans (congrArg _ htoken)
  | some (.quoted inner) =>
    have htext : written (some (.quoted inner)) ++ rest =
        '"' :: (inner.flatMap Inner.text ++ '"' :: rest) := Value.quoted_text_append inner rest
    rw [htext, value, quotedRest?_append]
    rfl

/-- A parameter is read as its name and its value. -/
theorem parameter_append {p : Parameter} (hp : p.value = none → rest ≠ [])
    (hrest : EndsValue rest) :
    parameter (p.after.text ++ (p.name.chars ++ '=' :: (written p.value ++ rest))) =
      .ok (p.pair, rest) := by
  have hequals : EndsToken ('=' :: (written p.value ++ rest)) := endsToken_cons (by decide)
  have hskip := skipBlank_append p.after
    (p.name.endsBlank_append ('=' :: (written p.value ++ rest)))
  have htoken := token_append_of_all p.name.isToken hequals
  obtain ⟨a, name, hcons⟩ := List.exists_cons_of_ne_nil p.name.ne_nil
  rw [parameter, hskip, htoken, Parameter.pair, hcons]
  simp only [value_written_append hp hrest]

theorem parameters_of_end {cs : List Char} (h : skipBlank cs = []) : parameters cs = .ok [] := by
  rw [parameters]
  split <;> simp_all

theorem parameters_of_semicolon {cs rest rest' : List Char} {pair : List Char × List Char}
    (h : skipBlank cs = ';' :: rest) (hp : parameter rest = .ok (pair, rest')) :
    parameters cs = (parameters rest').map (pair :: ·) := by
  rw [parameters]
  split
  · simp_all
  · rename_i hs
    obtain rfl := (List.cons.inj (h.symm.trans hs)).2
    split
    · simp_all
    · rename_i pair' rest'' hp'
      simp only [hp, Except.ok.injEq, Prod.mk.injEq] at hp'
      obtain ⟨rfl, rfl⟩ := hp'
      cases parameters rest' <;> rfl
  · simp_all

theorem parameters_tail {ps : List Parameter} {b : Blank}
    (h : (tail ps b).getLast? ≠ some '=') :
    parameters (tail ps b) = .ok (ps.map Parameter.pair) := by
  induction ps with
  | nil =>
    have hskip := skipBlank_append b endsBlank_nil
    exact parameters_of_end (by simpa [tail] using hskip)
  | cons p ps ih =>
    rw [tail_cons] at h ⊢
    obtain ⟨hvalue, hlast⟩ := (p.getLast?_append_ne_iff _).1 h
    have hparameter := parameter_append hvalue (endsValue_tail ps b)
    have hskip : skipBlank (p.text ++ tail ps b) =
        ';' :: (p.after.text ++ (p.name.chars ++ '=' :: (written p.value ++ tail ps b))) := by
      rw [p.text_append]
      exact skipBlank_append p.before (endsBlank_cons (by decide))
    rw [parameters_of_semicolon hskip hparameter, ih hlast]
    rfl

/-- A form is read for what it says. -/
theorem parseChars_text {f : Form} (h : f.text.getLast? ≠ some '=') :
    parseChars f.text = .ok f.mediaType := by
  have hslash : EndsToken ('/' :: (f.subtype.chars ++ tail f.parameters f.trailing)) :=
    endsToken_cons (by decide)
  have hkind := token_append_of_all f.kind.isToken hslash
  have hsubtype := token_append_of_all f.subtype.isToken
    (endsValue_tail f.parameters f.trailing).endsToken
  have htail := parameters_tail (f.getLast?_text_ne_iff.1 h)
  have hne : ¬ (f.kind.chars = [] ∨ f.subtype.chars = []) := by
    simp [f.kind.ne_nil, f.subtype.ne_nil]
  rw [parseChars, Form.text, hkind]
  simp only [hsubtype, if_neg hne, htail]
  rfl

end Written

section Read
variable {cs rest : List Char}

theorem exists_blank (cs : List Char) : ∃ b : Blank, cs = b.text ++ skipBlank cs := by
  have hspaces (l : List Char) :
      l = (l.takeWhile Text.isSpaceOrTab) ++ skipSpaces l := List.takeWhile_append_dropWhile.symm
  have hall (l : List Char) : ∀ c ∈ l.takeWhile Text.isSpaceOrTab, Text.isSpaceOrTab c = true :=
    fun c hc => List.mem_takeWhile_imp hc
  fun_cases skipBlank cs with
  | case1 l => exact ⟨⟨true, _, hall l⟩, congrArg (fun l => '\r' :: '\n' :: l) (hspaces l)⟩
  | case2 => exact ⟨⟨false, _, hall cs⟩, hspaces cs⟩

theorem exists_token {front : List Char} (h : token cs = (front, rest)) (hne : front ≠ []) :
    ∃ t : Token, t.chars = front ∧ cs = t.chars ++ rest := by
  have happend := token_append cs
  rw [h] at happend
  have hall : ∀ c ∈ front, Field.isTokenChar c = true := by
    obtain ⟨rfl, -⟩ := Prod.mk.inj h
    exact fun c hc => List.mem_takeWhile_imp hc
  exact ⟨⟨front, hne, hall⟩, rfl, happend.symm⟩

theorem exists_inner {v : List Char} (h : quotedRest? cs = some (v, rest)) :
    ∃ inner : List Inner,
      cs = inner.flatMap Inner.text ++ '"' :: rest ∧ v = inner.map Inner.char := by
  fun_induction quotedRest? cs generalizing v with
  | case1 => simp at h
  | case2 cs =>
    obtain ⟨rfl, rfl⟩ := Prod.mk.inj (Option.some.inj h)
    exact ⟨[], rfl, rfl⟩
  | case3 c cs ih =>
    obtain ⟨⟨u, rest'⟩, hu, heq⟩ := Option.map_eq_some_iff.1 h
    obtain ⟨rfl, rfl⟩ := Prod.mk.inj heq
    obtain ⟨inner, rfl, rfl⟩ := ih hu
    exact ⟨.escaped c :: inner, rfl, rfl⟩
  | case4 => simp at h
  | case5 c cs hquote hpair hlast ih =>
    have hbackslash : c ≠ '\\' := by
      intro hc
      cases cs with
      | nil => exact hlast hc rfl
      | cons d cs => exact hpair d cs hc rfl
    obtain ⟨⟨u, rest'⟩, hu, heq⟩ := Option.map_eq_some_iff.1 h
    obtain ⟨rfl, rfl⟩ := Prod.mk.inj heq
    obtain ⟨inner, rfl, rfl⟩ := ih hu
    exact ⟨.bare c hquote hbackslash :: inner, rfl, rfl⟩

theorem exists_value {v : List Char} (h : value cs = .ok (v, rest)) :
    ∃ w : Option Value, cs = written w ++ rest ∧ v = meaning w ∧ (w = none → rest ≠ []) := by
  fun_cases value cs with
  | case1 => simp [value] at h
  | case2 cs hquote => simp [value, hquote] at h
  | case3 cs r hquote =>
    simp only [value, hquote, Except.ok.injEq] at h
    obtain ⟨inner, hcs, hv⟩ := exists_inner (h ▸ hquote)
    refine ⟨some (.quoted inner), ?_, hv, by simp⟩
    rw [hcs]
    exact (Value.quoted_text_append inner rest).symm
  | case4 _ hne hquote =>
    have hread := (value.eq_3 cs hne hquote).symm.trans h
    have htoken := Except.ok.inj hread
    by_cases hv : v = []
    · -- what comes next is no token character, so the value is missing
      subst hv
      have happend := token_append cs
      rw [htoken] at happend
      exact ⟨none, happend.symm, rfl, fun _ hrest => hne (happend.symm.trans hrest)⟩
    · obtain ⟨t, rfl, hcs⟩ := exists_token htoken hv
      exact ⟨some (.token t), hcs, rfl, by simp⟩

theorem exists_parameter {pair : List Char × List Char} (h : parameter cs = .ok (pair, rest))
    (before : Blank) : ∃ p : Parameter, before.text ++ ';' :: cs = p.text ++ rest ∧
      p.pair = pair ∧ (p.value = none → rest ≠ []) := by
  obtain ⟨after, hafter⟩ := exists_blank cs
  unfold parameter at h
  split at h
  · rename_i a name rest' htoken
    obtain ⟨t, ht, hcs⟩ := exists_token htoken (List.cons_ne_nil a name)
    split at h
    · simp at h
    · rename_i v rest'' hvalue
      obtain ⟨rfl, rfl⟩ := Prod.mk.inj (Except.ok.inj h)
      obtain ⟨w, hw, rfl, hnone⟩ := exists_value hvalue
      refine ⟨⟨before, after, t, w⟩, ?_, ?_, hnone⟩
      · rw [Parameter.text_append, ← hw, ← hcs, ← hafter]
      · rw [Parameter.pair, ht]
  · simp at h

theorem exists_tail {pairs : List (List Char × List Char)} (h : parameters cs = .ok pairs) :
    ∃ ps b, tail ps b = cs ∧ pairs = ps.map Parameter.pair ∧ cs.getLast? ≠ some '=' := by
  fun_induction parameters cs generalizing pairs with
  | case1 cs hs =>
    obtain rfl := Except.ok.inj h
    obtain ⟨b, hb⟩ := exists_blank cs
    rw [hs, List.append_nil] at hb
    have hlast := getLast?_tail_ne (List.forall_mem_nil _) b
    exact ⟨[], b, hb.symm, rfl, hb ▸ hlast⟩
  | case4 cs rest hs pair rest' hp _ pairs' _ ih =>
    obtain rfl := Except.ok.inj h
    obtain ⟨ps, b, htail, rfl, hlast⟩ := ih ‹_›
    obtain ⟨before, hbefore⟩ := exists_blank cs
    obtain ⟨p, htext, rfl, hvalue⟩ := exists_parameter hp before
    rw [← hs, ← hbefore] at htext
    refine ⟨p :: ps, b, ?_, rfl, ?_⟩
    · rw [tail_cons, htail, htext]
    · rw [htext, p.getLast?_append_ne_iff]
      exact ⟨hvalue, hlast⟩
  | _ => simp at h

/-- What is read has a form, and does not end in an equals sign. -/
theorem exists_form {t : MediaType} (h : parseChars cs = .ok t) :
    ∃ f : Form, f.text = cs ∧ f.text.getLast? ≠ some '=' ∧ f.mediaType = t := by
  unfold parseChars at h
  split at h
  · rename_i kind rest hkind
    simp only at h
    split at h
    · simp at h
    rename_i hne
    obtain ⟨hkindne, hsubtypene⟩ := not_or.1 hne
    split at h
    · simp at h
    rename_i pairs hpairs
    obtain ⟨k, rfl, rfl⟩ := exists_token hkind hkindne
    obtain ⟨u, hu, hrest⟩ := exists_token (Prod.eta (token rest)).symm hsubtypene
    obtain ⟨ps, b, htail, rfl, hlast⟩ := exists_tail hpairs
    rw [← hu] at h
    refine ⟨⟨k, u, ps, b⟩, ?_, ?_, Except.ok.inj h⟩
    · rw [Form.text, htail, ← hrest]
    · rw [Form.getLast?_text_ne_iff, htail]
      exact hlast
  · simp at h

end Read

theorem parse_eq_ok_iff {s : String} {t : MediaType} : parse s = .ok t ↔
    ∃ f : Form, f.text = s.toList ∧ f.text.getLast? ≠ some '=' ∧ f.mediaType = t := by
  constructor
  · intro h
    rw [parse] at h
    cases hread : parseChars s.toList with
    | error p => simp [hread, Except.mapError] at h
    | ok t' =>
      rw [hread] at h
      obtain rfl := Except.ok.inj h
      exact exists_form hread
  · rintro ⟨f, htext, hlast, rfl⟩
    rw [parse, ← htext, parseChars_text hlast]
    rfl

/-- The text is derivable but for a missing value, which does not come last. -/
def MissesValue (s : String) : Prop :=
  ∃ f : Form, ¬ f.Complete ∧ f.text = s.toList ∧ f.text.getLast? ≠ some '='

/-- The accepted texts are those of the grammar and those that only miss a value somewhere before
their end. No text is both. -/
theorem parse_accepts_iff (s : String) :
    ((∃ t, parse s = .ok t) ↔ Derivable s ∨ MissesValue s) ∧ ¬ (Derivable s ∧ MissesValue s) := by
  constructor
  · constructor
    · rintro ⟨t, h⟩
      obtain ⟨f, htext, hlast, -⟩ := parse_eq_ok_iff.1 h
      by_cases hcomplete : f.Complete
      · exact .inl ⟨f, hcomplete, htext⟩
      · exact .inr ⟨f, hcomplete, htext, hlast⟩
    · rintro (⟨f, hcomplete, htext⟩ | ⟨f, -, htext, hlast⟩)
      · exact ⟨_, parse_eq_ok_iff.2 ⟨f, htext, hcomplete.getLast?_ne, rfl⟩⟩
      · exact ⟨_, parse_eq_ok_iff.2 ⟨f, htext, hlast, rfl⟩⟩
  · rintro ⟨⟨f, hcomplete, htext⟩, ⟨f', hmisses, htext', -⟩⟩
    obtain rfl := Form.text_injective (htext.trans htext'.symm)
    exact hmisses hcomplete

/-- The charset has no value, and another parameter follows. -/
theorem parse_accepts_missing_value :
    (∃ t, parse "text/plain; charset=; format=flowed" = .ok t) ∧
      ¬ Derivable "text/plain; charset=; format=flowed" := by
  let charset : Parameter :=
    ⟨.ofSpaces 0, .ofSpaces 1, .ofString "charset" (by decide +kernel), none⟩
  let format : Parameter :=
    ⟨.ofSpaces 0, .ofSpaces 1, .ofString "format" (by decide +kernel),
      some (.token (.ofString "flowed" (by decide +kernel)))⟩
  let f : Form :=
    ⟨.ofString "text" (by decide +kernel), .ofString "plain" (by decide +kernel),
      [charset, format], .ofSpaces 0⟩
  have htext : f.text = "text/plain; charset=; format=flowed".toList := by decide +kernel
  have hlast : f.text.getLast? ≠ some '=' := by decide +kernel
  refine ⟨⟨_, parse_eq_ok_iff.2 ⟨f, htext, hlast, rfl⟩⟩, ?_⟩
  rintro ⟨f', hcomplete, htext'⟩
  obtain rfl := Form.text_injective (htext'.trans htext.symm)
  have hvalue := hcomplete charset List.mem_cons_self
  simp [charset] at hvalue

end HttpWire.MediaType
