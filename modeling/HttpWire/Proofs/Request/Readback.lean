import HttpWire.Proofs.Head.Decoding
import HttpWire.Proofs.Header.Pairs
import HttpWire.Proofs.Request.Lines

/-! The header lines of a request, read back as those of a response. They give the fields that were
sent, with their values trimmed. -/
namespace HttpWire.Request
open Octets PacketStream HeaderMap

theorem isBlankOctet_ofLatin1 (c : Char) :
    Head.isBlankOctet (if c.toNat < 256 then c.toUInt8 else 63) = Text.isSpaceOrTab c := by
  split
  · rename_i hlt
    rw [← Head.isSpaceOrTab_ofUInt8, ofUInt8_toUInt8 hlt]
  · rename_i hge
    have hspace : c ≠ ' ' := by
      rintro rfl
      exact hge (by decide)
    have htab : c ≠ '\t' := by
      rintro rfl
      exact hge (by decide)
    rw [Text.isSpaceOrTab, beq_false_of_ne hspace, beq_false_of_ne htab]
    rfl

/-- The octets of a header line divide where the line was put together. -/
theorem divides_fieldText {f : String × String} (h : Field.problem? f.1 f.2 = none) :
    Head.Divides (ofLatin1 (fieldText f)) (ofLatin1 f.1) (ofLatin1 (trimmedValue f.2)) := by
  obtain ⟨hname, hvalue⟩ := Field.problem?_eq_none_iff.1 h
  have hchars := (Bool.and_eq_true_iff.1 hname).2
  have hcolon : 58 ∉ ofLatin1 f.1 := by
    intro hmem
    obtain ⟨c, hc, hn⟩ := toNat_ofLatin1 hmem (Field.isValue_of_isToken hname)
    refine Field.ne_of_isTokenChar (d := ':') (List.all_eq_true.1 hchars c hc) (by decide) ?_
    exact Char.toNat_inj.1 hn.symm
  have hblank : ∀ o ∈ ofLatin1 f.1, Head.isBlankOctet o = false := by
    intro o ho
    obtain ⟨c, hc, rfl⟩ := List.mem_map.1 ho
    rw [isBlankOctet_ofLatin1]
    exact Field.isSpaceOrTab_of_isTokenChar (List.all_eq_true.1 hchars c hc)
  have htext : ofLatin1 (fieldText f) = ofLatin1 f.1 ++ 58 :: (32 :: ofLatin1 f.2) := by
    have hseparator : ofLatin1 ": " = [58, 32] := by decide +kernel
    rw [fieldText, ofLatin1_append, ofLatin1_append, hseparator, List.append_assoc]
    rfl
  have htrimmed : Text.Trimmed Head.isBlankOctet (ofLatin1 f.2) (ofLatin1 (trimmedValue f.2)) := by
    rw [ofLatin1, ofLatin1, trimmedValue, String.toList_ofList]
    exact (Text.trim_eq_iff.1 rfl).map isBlankOctet_ofLatin1
  rw [htext]
  exact .colon hcolon (Text.trimmed_self hblank) (htrimmed.cons rfl)

theorem isFieldLine_fieldText {f : String × String} (h : Field.problem? f.1 f.2 = none) :
    Head.IsFieldLine (ofLatin1 (fieldText f)) (f.1, trimmedValue f.2) := by
  obtain ⟨hname, hvalue⟩ := Field.problem?_eq_none_iff.1 h
  have htrimmed := isValue_trimmedValue hvalue
  have hnameText := latin1_ofLatin1 (Field.isValue_of_isToken hname)
  have hvalueText := latin1_ofLatin1 htrimmed
  have htoken : Head.IsToken (ofLatin1 f.1) := by
    rw [← Head.isToken_latin1_iff, hnameText]
    exact hname
  have hprinting : Head.IsPrinting (ofLatin1 (trimmedValue f.2)) := by
    rw [← Head.isValue_latin1_iff, hvalueText]
    exact htrimmed
  have hparts := Head.IsFieldLine.parts (divides_fieldText h) htoken hprinting
  rw [hnameText, hvalueText] at hparts
  exact hparts

/-- A request that was built sends header lines that read back as the ordered map, with its values
trimmed. What follows them is left alone. -/
theorem feed_headLines_of_build {d : Draft} {r : Request} (h : d.build = .ok r) :
    ∃ m, r.effectiveHeaders = .ok m ∧
      (answers r.encode).1 = (r.headLines m).map (fun p => some (.ok p)) ++ r.bodyAnswers ∧
      ∀ (line : Octets) (status : Nat) (reason : String) (maxLine : Nat) (rest : Octets),
        Head.IsStatusLine line (status, reason) → Unbroken line →
        (∀ p ∈ (line ++ crlf) :: (r.headLines m).tail, p.length ≤ maxLine + 2) →
        let o := (Head.Decoder.new maxLine).feed .empty
          (line ++ crlf ++ (r.headLines m).tail.flatten ++ rest)
        o.result = .ok (some ⟨status, reason, m.trimmed⟩) ∧ o.buffer.toOctets = rest := by
  obtain ⟨m, hm, hpairs⟩ := exists_effectiveHeaders h
  have hlines : r.headLines m = r.headPackets := by
    rw [headPackets, hpairs, requestLine_eq]
    rfl
  refine ⟨m, hm, by rw [answers_encode, hlines], ?_⟩
  intro line status reason maxLine rest hstatus hline hlengths
  have hfields : ∀ f ∈ m.pairs, Head.Fits maxLine (ofLatin1 (fieldText f)) ∧
      Head.IsFieldLine (ofLatin1 (fieldText f)) (f.1, trimmedValue f.2) := by
    intro f hf
    have hvalid := problem?_of_mem_pairs hf
    have hclean := clean_ofLatin1 (isValue_fieldText hvalid)
    have hmem : fieldLine f ∈ (r.headLines m).tail :=
      List.mem_append_left _ (List.mem_map_of_mem hf)
    have hlength := hlengths _ (List.mem_cons_of_mem _ hmem)
    rw [fieldLine, List.length_append] at hlength
    exact ⟨⟨unbroken_of_not_mem hclean.1, Nat.le_of_add_le_add_right hlength⟩,
      isFieldLine_fieldText hvalid⟩
  have hfits : Head.Fits maxLine line := by
    have hlength := hlengths _ List.mem_cons_self
    rw [List.length_append] at hlength
    exact ⟨hline, Nat.le_of_add_le_add_right hlength⟩
  have hopening := (Head.Opening.status hfits hstatus).append_fields hfields
  have hbuild : ofPairs (m.pairs.map fun f => (f.1, trimmedValue f.2)) = .ok m.trimmed := by
    rw [← pairs_trimmed]
    exact ofPairs_pairs m.trimmed
  have hblock : line ++ crlf ++ (r.headLines m).tail.flatten ++ rest =
      terminated ([line] ++ m.pairs.map fun f => ofLatin1 (fieldText f)) ++ (crlf ++ rest) := by
    have htail : (r.headLines m).tail = m.pairs.map fieldLine ++ [crlf] := rfl
    rw [htail, List.flatten_append, flatten_map_fieldLine, List.singleton_append, terminated_cons]
    simp only [List.append_assoc, List.flatten_cons, List.flatten_nil, List.append_nil]
  rw [hblock]
  exact (Head.Decodes.head hopening hbuild rest).feed_new

/-- Two values of one field, with blanks around the one and nothing in the other. -/
theorem feed_headLines_of_build_post :
    let uri : Uri :=
      ⟨some "http", some "h:80", "/a", some "k", by decide +kernel, by decide +kernel,
        by decide +kernel⟩
    let d := Draft.withBody
      ((((Draft.new .post uri).header "X-b" " 2: \t").header "HOST" "x").header "x-B" "")
      (.inMemory (.ofText "ok"))
    let line := ofText "HTTP/1.0 404 "
    ∃ r m, d.build = .ok r ∧ r.effectiveHeaders = .ok m ∧
      m.trimmed.pairs = [("Content-Length", "2"), ("Content-Type", "text/plain; charset=UTF-8"),
        ("Host", "h:80"), ("X-b", "2:"), ("X-b", "")] ∧
      Head.IsStatusLine line (404, "") ∧ Unbroken line ∧
      (∀ p ∈ (line ++ crlf) :: (r.headLines m).tail, p.length ≤ 39 + 2) ∧
      let o := (Head.Decoder.new 39).feed .empty
        (line ++ crlf ++ (r.headLines m).tail.flatten ++ crlf)
      o.result = .ok (some ⟨404, "", m.trimmed⟩) ∧ o.buffer.toOctets = crlf := by
  intro uri d line
  have hlines : (d.build.toOption.bind fun r => r.effectiveHeaders.toOption.map fun m =>
      ((r.headLines m).tail.map List.length, m.trimmed.pairs)) =
        some ([19, 41, 12, 12, 7, 2], [("Content-Length", "2"),
          ("Content-Type", "text/plain; charset=UTF-8"), ("Host", "h:80"), ("X-b", "2:"),
          ("X-b", "")]) := by
    decide +kernel
  have hstatus : Head.IsStatusLine line (404, "") := by
    have hparts : line = ofText "HTTP/1.0" ++ 32 :: ([52, 48, 52] ++ 32 :: []) := by decide +kernel
    have hdigits : Head.IsStatusCode [52, 48, 52] (100 * 4 + 10 * 0 + 4) :=
      .digits ⟨rfl, by decide⟩ ⟨rfl, by decide⟩ ⟨rfl, by decide⟩
    rw [hparts]
    exact .parts List.mem_cons_self hdigits
  have hline : Unbroken line := unbroken_of_not_mem (by decide +kernel)
  cases hbuild : d.build with
  | error e => simp [hbuild, Except.toOption] at hlines
  | ok r =>
    obtain ⟨m, hm, -, hfeed⟩ := feed_headLines_of_build hbuild
    rw [hbuild] at hlines
    simp only [Except.toOption, hm, Option.bind_some, Option.map_some, Option.some.injEq,
      Prod.mk.injEq] at hlines
    have hlengths : ∀ p ∈ (line ++ crlf) :: (r.headLines m).tail, p.length ≤ 39 + 2 := by
      have hlength : (line ++ crlf).length = 15 := by decide +kernel
      rw [← List.forall_mem_map (f := List.length) (P := (· ≤ 39 + 2)), List.map_cons, hlines.1,
        hlength]
      decide
    exact ⟨r, m, rfl, hm, hlines.2, hstatus, hline, hlengths,
      hfeed line 404 "" 39 crlf hstatus hline hlengths⟩

end HttpWire.Request
