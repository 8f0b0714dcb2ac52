import HttpWire.Proofs.MediaType.Meaning

/-! Rendered media types that are read again. The label of the charset stands in the rendered text
as it is, so it comes back if and only if it is a token. -/
namespace HttpWire.MediaType

/-- The parameter in which a charset is rendered. -/
def charsetParameter (label : Token) : Parameter :=
  ⟨.ofSpaces 0, .ofSpaces 1, .ofString "charset" (by decide +kernel), some (.token label)⟩

/-- The form of a rendered type whose charset, if it has one, is a token. -/
def Form.rendered (kind subtype : Token) (label : Option Token) : Form :=
  ⟨kind, subtype, label.toList.map charsetParameter, .ofSpaces 0⟩

theorem text_charsetParameter (label : Token) :
    (charsetParameter label).text = "; charset=".toList ++ label.chars := by
  rw [Parameter.text]
  rfl

theorem isCharset_charsetParameter (label : Token) : (charsetParameter label).IsCharset := by
  show Text.lower (String.ofList "charset".toList) = "charset"
  decide +kernel

theorem Form.complete_rendered (kind subtype : Token) (label : Option Token) :
    (rendered kind subtype label).Complete := by
  intro p hp
  obtain ⟨t, -, rfl⟩ := List.mem_map.1 hp
  rfl

theorem toList_render_of_none {t : MediaType} (h : t.charset = none) :
    t.render.toList = t.mime.toList := by
  rw [render, h]

theorem toList_render_of_some {t : MediaType} {label : String} (h : t.charset = some label) :
    t.render.toList = t.mime.toList ++ "; charset=".toList ++ label.toList := by
  rw [render, h, String.toList_append, String.toList_append]

theorem eq_of_fields {t t' : MediaType} (hmime : t.mime = t'.mime)
    (hcharset : t.charset = t'.charset) : t = t' := by
  cases t
  cases t'
  rw [mk.injEq]
  exact ⟨hmime, hcharset⟩

section Rendered
variable {f : Form} {label : Option Token}

theorem Form.text_rendered
    (h : f.mediaType.charset = label.map fun token => String.ofList token.chars) :
    (rendered f.kind f.subtype label).text = f.mediaType.render.toList := by
  cases label with
  | none =>
    rw [toList_render_of_none h, f.toList_mime]
    simp [text, rendered, tail, Blank.text, Blank.ofSpaces]
  | some token =>
    rw [toList_render_of_some h, f.toList_mime]
    simp [text, rendered, tail, text_charsetParameter, Blank.text, Blank.ofSpaces]

theorem Form.mediaType_rendered
    (h : f.mediaType.charset = label.map fun token => String.ofList token.chars) :
    (rendered f.kind f.subtype label).mediaType = f.mediaType := by
  refine eq_of_fields rfl (Eq.trans ?_ h.symm)
  cases label with
  | none =>
    have hnone : charsetOf ((rendered f.kind f.subtype none).parameters.map Parameter.pair) =
        none := charsetOf_eq_none (List.forall_mem_nil _)
    rw [charset_eq, Option.map_none, Option.or_eq_none_iff] at h
    rw [charset_eq, hnone, Option.none_or]
    exact h.2
  | some token =>
    have hmeans := (rendered f.kind f.subtype (some token)).means_mediaType
    exact hmeans.named [] (charsetParameter token) [] rfl (isCharset_charsetParameter token)
      (List.forall_mem_nil _)

theorem parse_render_of_isToken (h : ∀ label ∈ f.mediaType.charset, Field.isToken label = true) :
    parse f.mediaType.render = .ok f.mediaType := by
  obtain ⟨label, hlabel⟩ : ∃ label : Option Token,
      f.mediaType.charset = label.map fun token => String.ofList token.chars := by
    cases hcharset : f.mediaType.charset with
    | none => exact ⟨none, rfl⟩
    | some label =>
      refine ⟨some (.ofString label (h label hcharset)), ?_⟩
      exact congrArg some String.ofList_toList.symm
  have hcomplete := Form.complete_rendered f.kind f.subtype label
  exact parse_eq_ok_iff.2 ⟨_, Form.text_rendered hlabel, hcomplete.getLast?_ne,
    Form.mediaType_rendered hlabel⟩

end Rendered

section Lengths

theorem Parameter.length_text (p : Parameter) : p.text.length = p.before.text.length +
    p.after.text.length + p.name.chars.length + (written p.value).length + 2 := by
  simp only [text, List.length_append, List.length_cons]
  omega

theorem length_text_le_length_tail {p : Parameter} {ps : List Parameter} (h : p ∈ ps) (b : Blank) :
    p.text.length ≤ (tail ps b).length := by
  obtain ⟨earlier, later, rfl⟩ := List.append_of_mem h
  simp only [tail, List.flatMap_append, List.flatMap_cons, List.length_append]
  omega

theorem Parameter.IsCharset.length_name {p : Parameter} (h : p.IsCharset) :
    p.name.chars.length = 7 := by
  have hlower := congrArg (fun s => s.toList.length) (show Text.lower _ = "charset" from h)
  simpa using hlower

theorem length_le_length_flatMap_text (inner : List Inner) :
    inner.length ≤ (inner.flatMap Inner.text).length := by
  induction inner with
  | nil => exact Nat.le_refl 0
  | cons i inner ih =>
    have hpos : 1 ≤ i.text.length := by cases i <;> simp [Inner.text]
    rw [List.flatMap_cons, List.length_append, List.length_cons]
    omega

end Lengths

section Labels
variable {label : String}

theorem isToken_of_defaultCharset {kind subtype : List Char}
    (h : defaultCharset kind subtype = some label) : Field.isToken label = true := by
  unfold defaultCharset at h
  split at h
  · obtain rfl := Option.some.inj h
    decide +kernel
  split at h
  · obtain rfl := Option.some.inj h
    decide +kernel
  · simp at h

/-- A charset is a default, and then a token, or the value of a parameter. -/
theorem exists_charset_parameter {f : Form} (h : f.mediaType.charset = some label) :
    Field.isToken label = true ∨
      ∃ p ∈ f.parameters, p.IsCharset ∧ meaning p.value = label.toList := by
  rw [f.charset_eq] at h
  cases hof : charsetOf (f.parameters.map Parameter.pair) with
  | none =>
    rw [hof, Option.none_or] at h
    exact .inl (isToken_of_defaultCharset h)
  | some named =>
    rw [hof, Option.some_or] at h
    obtain rfl : named = label := Option.some.inj h
    rw [charsetOf_eq] at hof
    obtain ⟨pair, hlast, rfl⟩ := Option.map_eq_some_iff.1 hof
    obtain ⟨hmem, hnames⟩ := List.mem_filter.1 (List.mem_of_getLast? hlast)
    obtain ⟨p, hp, rfl⟩ := List.mem_map.1 hmem
    exact .inr ⟨p, hp, namesCharset_pair_iff.1 hnames, String.toList_ofList.symm⟩

/-- A label that comes back was a token. -/
theorem isToken_of_parse_render {t : MediaType} (ht : t.charset = some label)
    (h : parse t.render = .ok t) : Field.isToken label = true := by
  obtain ⟨f, htext, hlast, rfl⟩ := parse_eq_ok_iff.1 h
  rw [toList_render_of_some ht] at htext
  obtain htoken | ⟨p, hp, hcharset, hmeaning⟩ := exists_charset_parameter ht
  · exact htoken
  have htail : tail f.parameters f.trailing = "; charset=".toList ++ label.toList := by
    rw [f.toList_mime, Form.text, List.append_assoc, List.append_assoc,
      List.append_cancel_left_eq] at htext
    exact List.append_cancel_left (List.cons.inj htext).2
  cases hvalue : p.value with
  | none =>
    -- the rendered text would end in an equals sign, and would not have been read
    rw [hvalue] at hmeaning
    rw [Form.getLast?_text_ne_iff, htail, ← hmeaning] at hlast
    have hequals : ("; charset=".toList ++ meaning none).getLast? = some '=' := by decide +kernel
    exact absurd hequals hlast
  | some v =>
    rw [hvalue] at hmeaning
    cases v with
    | token token =>
      have hlabel : String.ofList token.chars = label := String.ofList_eq.2 hmeaning
      exact hlabel ▸ token.isToken_ofList
    | quoted inner =>
      -- a semicolon, the name, an equals sign and two quotes are longer than `; charset=`
      have hfits := length_text_le_length_tail hp f.trailing
      have hinner := length_le_length_flatMap_text inner
      have hlabel := congrArg List.length hmeaning
      have hwritten : (written p.value).length = (inner.flatMap Inner.text).length + 2 := by
        rw [hvalue]
        simp [written, Value.text]
      have hopening : "; charset=".toList.length = 10 := rfl
      rw [p.length_text, hwritten, hcharset.length_name, htail, List.length_append,
        hopening] at hfits
      simp only [meaning, Option.elim_some, Value.content, List.length_map] at hlabel
      omega

end Labels

/-- A media type that was read comes back from its rendering if and only if it has no charset or the
label of its charset is a token. -/
theorem parse_render_iff {s : String} {t : MediaType} (h : parse s = .ok t) :
    parse t.render = .ok t ↔ ∀ label ∈ t.charset, Field.isToken label = true := by
  constructor
  · intro hrender label hlabel
    exact isToken_of_parse_render hlabel hrender
  · intro htoken
    obtain ⟨f, -, -, rfl⟩ := parse_eq_ok_iff.1 h
    exact parse_render_of_isToken htoken

/-- What is in the quotes is a token. -/
theorem parse_render_of_quoted_token :
    let t : MediaType := ⟨"Text/HTML", some "UTF-8"⟩
    parse "Text/HTML; Charset=\"\\UTF-8\"; q=1" = .ok t ∧ parse t.render = .ok t := by
  intro t
  have hread : parse "Text/HTML; Charset=\"\\UTF-8\"; q=1" = .ok t := by decide +kernel
  refine ⟨hread, (parse_render_iff hread).2 fun label hlabel => ?_⟩
  obtain rfl : "UTF-8" = label := Option.some.inj hlabel
  decide +kernel

/-- Without the quotes the second word is no part of the label. -/
theorem parse_render_ne_of_quoted_words :
    let t : MediaType := ⟨"text/plain", some "two words"⟩
    parse "text/plain; charset=\"two words\"" = .ok t ∧
      parse t.render = .error ⟨.trailingText, "text/plain; charset=two words"⟩ := by
  intro t
  have hread : parse "text/plain; charset=\"two words\"" = .ok t := by decide +kernel
  refine ⟨hread, ?_⟩
  decide +kernel

end HttpWire.MediaType
