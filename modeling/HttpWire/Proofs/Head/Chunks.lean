import HttpWire.Proofs.Head.Append

/-! Heads that arrive in chunks. The cuts make no difference, with one exception: a line of exactly
the longest length is refused when a cut parts the two octets of its end. -/
namespace HttpWire.Head.Decoder

/-- A cut falls inside the end of a line that is as long as the limit allows, and every line before
it was taken in. -/
def Severed (maxLine : Nat) (chunks : List Octets) : Prop :=
  ∃ k taken line, (chunks.take k).flatten = taken ++ line ++ [13] ∧
    (chunks.drop k).flatten.head? = some 10 ∧ line.length = maxLine ∧
    Octets.crlfIndex? (line ++ [13]) = none ∧
    ((new maxLine).feed .empty taken).result = .ok none ∧
    ((new maxLine).feed .empty taken).buffer.toOctets = []

/-- `Severed`, for a decoder that is under way: the octets up to the cut are refused for the line
that the line feed after the cut would end. -/
def SeveredFrom (d : Decoder) (b : Octets) (chunks : List Octets) : Prop :=
  ∃ k d' line, d.rescan (b ++ (chunks.take k).flatten) =
      (.error (.lineTooLong d.maxLine), d', line ++ [13]) ∧
    (chunks.drop k).flatten.head? = some 10 ∧ line.length = d.maxLine ∧
    Octets.crlfIndex? (line ++ [13]) = none

theorem view_feed {d : Decoder} {buffer : Buffer} (h : d.Searched buffer.toOctets)
    (chunk : Octets) :
    (d.feed buffer chunk).view = d.rewind.rescan (buffer.toOctets ++ chunk) ∧
      (d.feed buffer chunk).decoder.Searched (d.feed buffer chunk).buffer.toOctets := by
  rw [feed, ← Buffer.toOctets_append]
  exact view_decode (h.append_piece chunk)

theorem feedAll_cons_of_none {d : Decoder} {buffer : Buffer} {chunk : Octets}
    (h : (d.feed buffer chunk).result = .ok none) (fed : Nat) (chunks : List Octets) :
    d.feedAll buffer fed (chunk :: chunks) =
      (d.feed buffer chunk).decoder.feedAll (d.feed buffer chunk).buffer (fed + 1) chunks := by
  rw [feedAll]
  split <;> simp_all

theorem feedAll_cons_of_ne_none {d : Decoder} {buffer : Buffer} {chunk : Octets}
    (h : (d.feed buffer chunk).result ≠ .ok none) (fed : Nat) (chunks : List Octets) :
    d.feedAll buffer fed (chunk :: chunks) = (fed + 1, d.feed buffer chunk) := by
  rw [feedAll]
  split <;> simp_all

theorem Halts.limit_eq {d : Decoder} {b : Octets} {n : Nat}
    (h : Halts (.error (.lineTooLong n)) d b) : n = d.maxLine := by
  cases h with
  | settled answer => simp [isSettled] at answer
  | endless => rfl
  | long => rfl

/-- A line that is too long stays so, unless it is a carriage return over the limit and the line
feed comes next. -/
theorem Halts.append_lineTooLong {d : Decoder} {b : Octets} {n : Nat}
    (h : Halts (.error (.lineTooLong n)) d b) (q : Octets) :
    d.rescan (b ++ q) = (.error (.lineTooLong n), d, b ++ q) ∨
      ∃ line, b = line ++ [13] ∧ line.length = d.maxLine ∧ Octets.crlfIndex? b = none ∧
        q.head? = some 10 := by
  cases h with
  | settled answer => simp [isSettled] at answer
  | long hf hb hi =>
    exact .inl (rescan_of_long hf (Octets.crlfIndex?_append_of_some hb q) hi)
  | endless hf hb hl =>
    cases hc : Octets.crlfIndex? (b ++ q) with
    | none =>
      left
      rw [rescan_of_none hf hc, if_pos (by rw [List.length_append]; omega)]
    | some i =>
      by_cases hi : i > d.maxLine
      · exact .inl (rescan_of_long hf hc hi)
      -- the line end starts at the last octet of `b`, which is one past the limit
      · have hle := Octets.length_le_of_crlfIndex?_append hb hc
        have hlen : b.length = d.maxLine + 1 := by omega
        have heq : i = d.maxLine := by omega
        obtain ⟨hcr, hlf⟩ := (Octets.crlfIndex?_eq_some_iff.1 hc).1
        refine .inr ⟨b.take d.maxLine, ?_, by rw [List.length_take]; omega, hb, ?_⟩
        · rw [List.getElem?_append_left (by omega)] at hcr
          obtain ⟨hlt, hcr⟩ := List.getElem?_eq_some_iff.1 hcr
          subst heq
          rw [← hcr, List.take_append_getElem, List.take_of_length_le (by omega)]
        · rw [List.getElem?_append_right (by omega)] at hlf
          rw [List.head?_eq_getElem?, ← hlf]
          congr 1
          omega

theorem eq_lineTooLong {r : Except HeadError (Option Head)} (hr : r ≠ .ok none)
    (hs : isSettled r = false) : ∃ n, r = .error (.lineTooLong n) := by
  match r with
  | .ok none => exact absurd rfl hr
  | .ok (some _) => simp [isSettled] at hs
  | .error e =>
    cases e with
    | lineTooLong n => exact ⟨n, rfl⟩
    | _ => simp [isSettled] at hs

theorem rescan_idle {d d' : Decoder} {b rest : Octets} (h : d.rescan b = (.ok none, d', rest)) :
    d'.rescan rest = (.ok none, d', rest) := by
  have happ := rescan_append h []
  rw [List.append_nil, List.append_nil, h] at happ
  exact happ.symm

/-- A cut after the first chunk is one that the chunks after it have. -/
theorem severedFrom_cons_iff {d d' : Decoder} {b b' chunk : Octets} {chunks : List Octets}
    (hidle : d.rescan b = (.ok none, d, b)) (h : d.rescan (b ++ chunk) = (.ok none, d', b')) :
    SeveredFrom d b (chunk :: chunks) ↔ SeveredFrom d' b' chunks := by
  have hmax : d'.maxLine = d.maxLine := (halts_rescan h).2
  have happ (k : Nat) : d.rescan (b ++ ((chunk :: chunks).take (k + 1)).flatten) =
      d'.rescan (b' ++ (chunks.take k).flatten) := by
    rw [List.take_succ_cons, List.flatten_cons, ← List.append_assoc, rescan_append h]
    rfl
  constructor
  · rintro ⟨k, d₁, line, hrefused, hlf, hlen, hline⟩
    cases k with
    | zero =>
      rw [List.take_zero, List.flatten_nil, List.append_nil, hidle] at hrefused
      simp at hrefused
    | succ k =>
      rw [happ, ← hmax] at hrefused
      exact ⟨k, d₁, line, hrefused, hlf, hlen.trans hmax.symm, hline⟩
  · rintro ⟨k, d₁, line, hrefused, hlf, hlen, hline⟩
    rw [← happ, hmax] at hrefused
    exact ⟨k + 1, d₁, line, hrefused, hlf, hlen.trans hmax, hline⟩

/-- Without an unlucky cut, chunks come to what all their octets at once come to. -/
theorem exists_feedAll {d : Decoder} {buffer : Buffer} {chunks : List Octets}
    (hs : d.Searched buffer.toOctets)
    (hidle : d.rewind.rescan buffer.toOctets = (.ok none, d.rewind, buffer.toOctets))
    (hcut : ¬ SeveredFrom d.rewind buffer.toOctets chunks) (fed : Nat) :
    ∃ j o, d.feedAll buffer fed chunks = (fed + j, o) ∧
      d.rewind.rescan (buffer.toOctets ++ chunks.flatten) =
        (o.result, o.decoder.rewind, o.buffer.toOctets ++ (chunks.drop j).flatten) := by
  induction chunks generalizing d buffer fed with
  | nil => exact ⟨0, ⟨.ok none, d, buffer⟩, rfl, by simpa using hidle⟩
  | cons chunk chunks ih =>
    obtain ⟨hview, hs'⟩ := view_feed hs chunk
    have hrescan := hview.symm
    rw [Outcome.view] at hrescan
    rw [List.flatten_cons, ← List.append_assoc, rescan_append hrescan]
    by_cases hr : (d.feed buffer chunk).result = .ok none
    · rw [hr] at hrescan
      rw [severedFrom_cons_iff hidle hrescan] at hcut
      obtain ⟨j, o, hfed, ho⟩ := ih hs' (rescan_idle hrescan) hcut (fed + 1)
      refine ⟨j + 1, o, ?_, ?_⟩
      · rw [feedAll_cons_of_none hr, hfed, Nat.add_right_comm, Nat.add_assoc]
      · rw [hr, List.drop_succ_cons, ← ho]
        rfl
    · refine ⟨1, d.feed buffer chunk, feedAll_cons_of_ne_none hr fed chunks, ?_⟩
      split
      · rfl
      -- a line too long is the one refusal that more octets could take back
      · rename_i hsettled
        obtain ⟨n, hn⟩ := eq_lineTooLong hr (by simpa using hsettled)
        obtain ⟨hhalts, hmax⟩ := halts_rescan hrescan
        rw [hn] at hhalts hrescan ⊢
        rcases hhalts.append_lineTooLong chunks.flatten with hsame | ⟨line, hb, hlen, hline, hlf⟩
        · exact hsame
        · rw [hb] at hline
          rw [hb, hhalts.limit_eq.trans hmax] at hrescan
          refine absurd ⟨1, (d.feed buffer chunk).decoder.rewind, line, ?_, hlf, hlen.trans hmax,
            hline⟩ hcut
          rw [List.take_succ_cons, List.take_zero, List.flatten_singleton, hrescan]

/-- An unlucky cut makes the line before it too long. -/
theorem feedAll_of_severedFrom {d : Decoder} {buffer : Buffer} {chunks : List Octets}
    (hs : d.Searched buffer.toOctets)
    (hidle : d.rewind.rescan buffer.toOctets = (.ok none, d.rewind, buffer.toOctets))
    (hcut : SeveredFrom d.rewind buffer.toOctets chunks) (fed : Nat) :
    (d.feedAll buffer fed chunks).2.result = .error (.lineTooLong d.maxLine) := by
  induction chunks generalizing d buffer fed with
  | nil =>
    obtain ⟨k, d', line, -, hlf, -⟩ := hcut
    simp at hlf
  | cons chunk chunks ih =>
    obtain ⟨hview, hs'⟩ := view_feed hs chunk
    have hrescan := hview.symm
    rw [Outcome.view] at hrescan
    obtain ⟨hhalts, hmax⟩ := halts_rescan hrescan
    by_cases hr : (d.feed buffer chunk).result = .ok none
    · rw [hr] at hrescan
      have hlimit : (d.feed buffer chunk).decoder.maxLine = d.maxLine := hmax
      rw [feedAll_cons_of_none hr, ← hlimit]
      exact ih hs' (rescan_idle hrescan) ((severedFrom_cons_iff hidle hrescan).1 hcut) (fed + 1)
    · rw [feedAll_cons_of_ne_none hr]
      obtain ⟨k, d', line, hrefused, -⟩ := hcut
      cases k with
      | zero =>
        rw [List.take_zero, List.flatten_nil, List.append_nil, hidle] at hrefused
        simp at hrefused
      | succ k =>
        rw [List.take_succ_cons, List.flatten_cons, ← List.append_assoc,
          rescan_append hrescan] at hrefused
        split at hrefused
        · rename_i hsettled
          rw [(Prod.mk.inj hrefused).1] at hsettled
          simp [isSettled] at hsettled
        · rename_i hsettled
          obtain ⟨n, hn⟩ := eq_lineTooLong hr (by simpa using hsettled)
          rw [hn] at hhalts ⊢
          rw [hhalts.limit_eq.trans hmax]
          rfl

theorem searched_new (maxLine : Nat) : (new maxLine).Searched Buffer.empty.toOctets :=
  searched_of_scanned_eq_zero rfl _

theorem idle_new (maxLine : Nat) : (new maxLine).rewind.rescan Buffer.empty.toOctets =
    (.ok none, (new maxLine).rewind, Buffer.empty.toOctets) := rescan_nil (new maxLine)

theorem rescan_new (maxLine : Nat) (b : Octets) :
    (new maxLine).rescan b = ((new maxLine).feed .empty b).view :=
  (view_feed (searched_new maxLine) b).1.symm

theorem severed_iff {maxLine : Nat} {chunks : List Octets} :
    Severed maxLine chunks ↔ SeveredFrom (new maxLine) [] chunks := by
  constructor
  · rintro ⟨k, taken, line, hcut, hlf, hlen, hline, hresult, hbuffer⟩
    have htaken := rescan_new maxLine taken
    rw [Outcome.view, hresult, hbuffer] at htaken
    have hfin := finished_eq_of_rescan htaken rfl
    have hmax := (halts_rescan htaken).2
    refine ⟨k, ((new maxLine).feed .empty taken).decoder.rewind, line, ?_, hlf, hlen, hline⟩
    rw [List.nil_append, hcut, List.append_assoc, rescan_append htaken, List.nil_append]
    show Decoder.rescan _ _ = _
    rw [rescan_of_none hfin hline, hmax, if_pos (by
      rw [List.length_append, hlen]
      exact Nat.lt_succ_self maxLine)]
  · rintro ⟨k, d, line, hrefused, hlf, hlen, hline⟩
    obtain ⟨taken, hcut, htaken⟩ := exists_taken hrefused
    rw [rescan_new, Outcome.view] at htaken
    refine ⟨k, taken, line, ?_, hlf, hlen, hline, (Prod.mk.inj htaken).1, ?_⟩
    · rw [List.append_assoc, ← hcut, List.nil_append]
    · exact (Prod.mk.inj (Prod.mk.inj htaken).2).2

/-- Chunks come to what all their octets at once come to, unless the end of a longest line is
severed and nothing after it is refused for its length. Then it is that line that is refused. -/
theorem feedAll_agrees_iff (maxLine : Nat) (chunks : List Octets) :
    let parts := (new maxLine).feedAll .empty 0 chunks
    let whole := (new maxLine).feed .empty chunks.flatten
    ((parts.2.result = whole.result ∧
        ∀ head, parts.2.result = .ok (some head) →
          parts.2.buffer.toOctets ++ (chunks.drop parts.1).flatten = whole.buffer.toOctets) ↔
      (Severed maxLine chunks → whole.result = .error (.lineTooLong maxLine))) ∧
    (Severed maxLine chunks → parts.2.result = .error (.lineTooLong maxLine)) := by
  intro parts whole
  by_cases hcut : Severed maxLine chunks
  · have hparts : parts.2.result = .error (.lineTooLong maxLine) :=
      feedAll_of_severedFrom (searched_new maxLine) (idle_new maxLine) (severed_iff.1 hcut) 0
    refine ⟨⟨fun h _ => h.1.symm.trans hparts, fun h => ⟨hparts.trans (h hcut).symm, ?_⟩⟩,
      fun _ => hparts⟩
    intro head hhead
    rw [hparts] at hhead
    simp at hhead
  · obtain ⟨j, o, hfed, ho⟩ := exists_feedAll (searched_new maxLine) (idle_new maxLine)
      (fun h => hcut (severed_iff.2 h)) 0
    have hwhole := ho.symm.trans (rescan_new maxLine chunks.flatten)
    obtain ⟨hresult, hrest⟩ := Prod.mk.inj hwhole
    have hbuffer := (Prod.mk.inj hrest).2
    have hparts : parts = (0 + j, o) := hfed
    rw [hparts, Nat.zero_add]
    exact ⟨⟨fun _ h => absurd h hcut, fun _ => ⟨hresult, fun _ _ => hbuffer⟩⟩,
      fun h => absurd h hcut⟩

/-- Fifteen octets are allowed, and the status line has fifteen. -/
theorem feedAll_ne_feed_at_severed_line_end :
    let chunks := [Octets.ofText "HTTP/1.1 200 OK\r", Octets.ofText "\n\r\n"]
    ((new 15).feedAll .empty 0 chunks).2.result = .error (.lineTooLong 15) ∧
      ∃ head, ((new 15).feed .empty chunks.flatten).result = .ok (some head) := by
  intro chunks
  refine ⟨by cbv, ?_⟩
  have hsome : ((new 15).feed .empty chunks.flatten).result.toOption.join.isSome = true := by
    decide +kernel
  cases hr : ((new 15).feed .empty chunks.flatten).result with
  | error e => simp [hr, Except.toOption] at hsome
  | ok head =>
    cases head with
    | none => simp [hr, Except.toOption] at hsome
    | some head => exact ⟨head, rfl⟩

end HttpWire.Head.Decoder
