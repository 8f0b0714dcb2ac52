import HttpWire.Proofs.MediaType.Reading

/-! What a media type says, however it is written: its type and subtype as they stand, and the last
charset it names, or else the one of its type. -/
namespace HttpWire.MediaType

/-- The token is this word in some casing. -/
def Token.Spells (t : Token) (word : String) : Prop := Text.lower (String.ofList t.chars) = word

def Parameter.IsCharset (p : Parameter) : Prop := p.name.Spells "charset"

/-- The media type that a form stands for. -/
structure Form.Means (f : Form) (t : MediaType) : Prop where
  mime : t.mime.toList = f.kind.chars ++ '/' :: f.subtype.chars
  named : ∀ earlier p later, f.parameters = earlier ++ p :: later → p.IsCharset →
    (∀ q ∈ later, ¬ q.IsCharset) → t.charset = some (String.ofList (meaning p.value))
  text : (∀ p ∈ f.parameters, ¬ p.IsCharset) → f.kind.Spells "text" →
    t.charset = some "ISO-8859-1"
  json : (∀ p ∈ f.parameters, ¬ p.IsCharset) → f.kind.Spells "application" →
    f.subtype.Spells "json" → t.charset = some "UTF-8"
  other : (∀ p ∈ f.parameters, ¬ p.IsCharset) → ¬ f.kind.Spells "text" →
    ¬ (f.kind.Spells "application" ∧ f.subtype.Spells "json") → t.charset = none

theorem sameLetters_chars_iff {t : Token} {word : String} (h : Text.lower word = word) :
    Text.sameLetters (String.ofList t.chars) word = true ↔ t.Spells word := by
  rw [Text.sameLetters, beq_iff_eq, h, Token.Spells]

section Charset
variable {ps earlier later : List Parameter} {p : Parameter}

/-- The pair is one that `charsetOf` looks at. -/
def namesCharset (pair : List Char × List Char) : Bool :=
  Text.sameLetters (String.ofList pair.1) "charset"

theorem charsetOf_eq (pairs : List (List Char × List Char)) : charsetOf pairs =
    ((pairs.filter namesCharset).getLast?).map fun pair => String.ofList pair.2 := rfl

theorem namesCharset_pair_iff : namesCharset p.pair = true ↔ p.IsCharset :=
  sameLetters_chars_iff (by decide +kernel)

theorem filter_namesCharset_eq_nil (h : ∀ q ∈ ps, ¬ q.IsCharset) :
    (ps.map Parameter.pair).filter namesCharset = [] := by
  refine List.filter_eq_nil_iff.2 fun pair hpair => ?_
  obtain ⟨q, hq, rfl⟩ := List.mem_map.1 hpair
  exact mt namesCharset_pair_iff.1 (h q hq)

/-- The last parameter for the charset counts. -/
theorem charsetOf_append (hp : p.IsCharset) (hlater : ∀ q ∈ later, ¬ q.IsCharset) :
    charsetOf ((earlier ++ p :: later).map Parameter.pair) =
      some (String.ofList (meaning p.value)) := by
  have hpair := namesCharset_pair_iff.2 hp
  rw [charsetOf_eq, List.map_append, List.map_cons, List.filter_append,
    List.filter_cons_of_pos hpair, filter_namesCharset_eq_nil hlater, List.getLast?_concat]
  rfl

theorem charsetOf_eq_none (h : ∀ q ∈ ps, ¬ q.IsCharset) :
    charsetOf (ps.map Parameter.pair) = none := by
  rw [charsetOf_eq, filter_namesCharset_eq_nil h]
  rfl

end Charset

section Default
variable {kind subtype : Token}

theorem defaultCharset_of_text (h : kind.Spells "text") :
    defaultCharset kind.chars subtype.chars = some "ISO-8859-1" := by
  have hkind := (sameLetters_chars_iff (by decide +kernel)).2 h
  rw [defaultCharset, if_pos hkind]

theorem defaultCharset_of_json (hkind : kind.Spells "application")
    (hsubtype : subtype.Spells "json") :
    defaultCharset kind.chars subtype.chars = some "UTF-8" := by
  have htext : ¬ kind.Spells "text" := by
    rw [Token.Spells, hkind]
    decide +kernel
  have hother := mt (sameLetters_chars_iff (by decide +kernel)).1 htext
  have happlication := (sameLetters_chars_iff (by decide +kernel)).2 hkind
  have hjson := (sameLetters_chars_iff (by decide +kernel)).2 hsubtype
  rw [defaultCharset, if_neg hother, happlication, hjson]
  rfl

theorem defaultCharset_of_other (htext : ¬ kind.Spells "text")
    (hjson : ¬ (kind.Spells "application" ∧ subtype.Spells "json")) :
    defaultCharset kind.chars subtype.chars = none := by
  have hother := mt (sameLetters_chars_iff (by decide +kernel)).1 htext
  rw [defaultCharset, if_neg hother, if_neg]
  rw [Bool.and_eq_true, sameLetters_chars_iff (by decide +kernel),
    sameLetters_chars_iff (by decide +kernel)]
  exact hjson

end Default

theorem Form.means_mediaType (f : Form) : f.Means f.mediaType := by
  have hdefault (h : ∀ p ∈ f.parameters, ¬ p.IsCharset) :
      f.mediaType.charset = defaultCharset f.kind.chars f.subtype.chars := by
    rw [f.charset_eq, charsetOf_eq_none h, Option.none_or]
  constructor
  · exact f.toList_mime
  · intro earlier p later hps hp hlater
    rw [f.charset_eq, hps, charsetOf_append hp hlater, Option.some_or]
  · exact fun h htext => (hdefault h).trans (defaultCharset_of_text htext)
  · exact fun h hkind hsubtype => (hdefault h).trans (defaultCharset_of_json hkind hsubtype)
  · exact fun h htext hjson => (hdefault h).trans (defaultCharset_of_other htext hjson)

/-- However a media type is written, it is read for what it says. In quotes, any text can be a
value. -/
theorem parse_text {f : Form} (h : f.Complete) :
    (∃ t, parse (String.ofList f.text) = .ok t ∧ f.Means t) ∧
      ∀ content : List Char, ∃ inner, (Value.quoted inner).content = content := by
  constructor
  · refine ⟨f.mediaType, ?_, f.means_mediaType⟩
    exact parse_eq_ok_iff.2 ⟨f, String.toList_ofList.symm, h.getLast?_ne, rfl⟩
  · intro content
    refine ⟨content.map .escaped, ?_⟩
    rw [Value.content, List.map_map]
    exact List.map_id content

/-- The last charset is in quotes, with a quote, a semicolon and a backslash in it, and there are
line ends around. -/
theorem parse_text_of_quoted :
    let name : Token := .ofString "Charset" (by decide +kernel)
    let plain : Value := .token (.ofString "utf-8" (by decide +kernel))
    let quoted : Value := .quoted [.bare 'é' (by decide) (by decide), .escaped '"',
      .bare ';' (by decide) (by decide), .escaped '\\', .escaped 'n']
    let folded : Blank := ⟨true, [' ', '\t'], by simp [Text.isSpaceOrTab]⟩
    let f : Form := ⟨.ofString "text" (by decide +kernel), .ofString "HTML" (by decide +kernel),
      [⟨.ofSpaces 0, .ofSpaces 1, name, some plain⟩, ⟨folded, folded, name, some quoted⟩], folded⟩
    f.Complete ∧
      ∃ t, parse (String.ofList f.text) = .ok t ∧ t.mime = "text/HTML" ∧
        t.charset = some "é\";\\n" := by
  intro name plain quoted folded f
  have hcomplete : f.Complete := by
    intro p hp
    simp only [f, List.mem_cons, List.not_mem_nil, or_false] at hp
    rcases hp with rfl | rfl <;> rfl
  have hname : name.Spells "charset" := by
    show Text.lower (String.ofList name.chars) = "charset"
    decide +kernel
  obtain ⟨⟨t, hparse, hmeans⟩, -⟩ := parse_text hcomplete
  have hmime : t.mime.toList = "text/HTML".toList := hmeans.mime.trans (by decide +kernel)
  have hcharset := hmeans.named [⟨.ofSpaces 0, .ofSpaces 1, name, some plain⟩]
    ⟨folded, folded, name, some quoted⟩ [] rfl hname (List.forall_mem_nil _)
  exact ⟨hcomplete, t, hparse, String.toList_inj.1 hmime, hcharset.trans (by decide +kernel)⟩

end HttpWire.MediaType
