import HttpWire.Proofs.Head.Calls
import HttpWire.Proofs.Head.Taken

/-! A decoding that fails has no other effect than to take in the lines before the one that is
refused. That line is as good as never sent. -/
namespace HttpWire.Head.Decoder
open Octets (terminated crlf latin1 Unbroken)

/-- The decoder and its buffer after these calls. -/
def reach (d : Decoder) (buffer : Buffer) : List Call → Decoder × Buffer
  | [] => (d, buffer)
  | .append piece :: calls => d.reach (buffer.append piece) calls
  | .decode :: calls => (d.decode buffer).decoder.reach (d.decode buffer).buffer calls

/-- What each decoding comes to, whatever was searched before. -/
def outcomes (d : Decoder) (buffer : Buffer) :
    List Call → List (Except HeadError (Option Head) × Decoder × Octets)
  | [] => []
  | .append piece :: calls => d.outcomes (buffer.append piece) calls
  | .decode :: calls =>
    (d.decode buffer).view :: (d.decode buffer).decoder.outcomes (d.decode buffer).buffer calls

/-- All that these calls append. -/
def given (calls : List Call) : Octets :=
  calls.flatMap fun
    | .append piece => piece
    | .decode => []

/-- Octets without those from `start` up to `stop`. -/
def without (start stop : Nat) (b : Octets) : Octets := b.take start ++ b.drop stop

/-- The calls without the octets from `start` up to `stop`, counted over all that they append. -/
def leaveOut (start stop : Nat) : List Call → List Call
  | [] => []
  | .append piece :: calls => .append (without start stop piece) ::
      leaveOut (start - piece.length) (stop - piece.length) calls
  | .decode :: calls => .decode :: leaveOut start stop calls

/-- `reach`, with each line end searched for from the first octet. -/
def rescanReach (d : Decoder) (b : Octets) : List Call → Decoder × Octets
  | [] => (d, b)
  | .append piece :: calls => d.rescanReach (b ++ piece) calls
  | .decode :: calls =>
    let (_, d, rest) := d.rescan b
    d.rescanReach rest calls

/-- `outcomes`, with each line end searched for from the first octet. -/
def rescanOutcomes (d : Decoder) (b : Octets) :
    List Call → List (Except HeadError (Option Head) × Decoder × Octets)
  | [] => []
  | .append piece :: calls => d.rescanOutcomes (b ++ piece) calls
  | .decode :: calls =>
    let (result, d, rest) := d.rescan b
    (result, d, rest) :: d.rescanOutcomes rest calls

section Rescan
variable {d : Decoder} {buffer : Buffer}

theorem Searched.reach_eq (h : d.Searched buffer.toOctets) (calls : List Call) :
    d.rewind.rescanReach buffer.toOctets calls =
        ((d.reach buffer calls).1.rewind, (d.reach buffer calls).2.toOctets) ∧
      (d.reach buffer calls).1.Searched (d.reach buffer calls).2.toOctets := by
  induction calls generalizing d buffer with
  | nil => exact ⟨rfl, h⟩
  | cons call calls ih =>
    cases call with
    | append piece =>
      rw [rescanReach, reach, ← Buffer.toOctets_append]
      exact ih (h.append_piece piece)
    | decode =>
      obtain ⟨hview, hsearched⟩ := view_decode h
      rw [rescanReach, reach, ← hview]
      exact ih hsearched

theorem Searched.outcomes_eq (h : d.Searched buffer.toOctets) (calls : List Call) :
    d.outcomes buffer calls = d.rewind.rescanOutcomes buffer.toOctets calls := by
  induction calls generalizing d buffer with
  | nil => rfl
  | cons call calls ih =>
    cases call with
    | append piece =>
      rw [rescanOutcomes, outcomes, ih (h.append_piece piece), Buffer.toOctets_append]
    | decode =>
      obtain ⟨hview, hsearched⟩ := view_decode h
      rw [rescanOutcomes, outcomes, ih hsearched, ← hview]
      rfl

end Rescan

section LeftOut
variable {start stop : Nat}

theorem without_append (h : start ≤ stop) (a b : Octets) : without start stop (a ++ b) =
    without start stop a ++ without (start - a.length) (stop - a.length) b := by
  rw [without, List.take_append, List.drop_append]
  by_cases hstart : start ≤ a.length
  · have htake : b.take (start - a.length) = [] := by
      rw [Nat.sub_eq_zero_of_le hstart, List.take_zero]
    simp only [without, htake, List.append_nil, List.nil_append, List.append_assoc]
  · have hdrop : a.drop stop = [] := List.drop_eq_nil_of_le (by omega)
    simp only [without, hdrop, List.append_nil, List.nil_append, List.append_assoc]

theorem without_nil (start stop : Nat) : without start stop [] = [] := by
  rw [without, List.take_nil, List.drop_nil, List.append_nil]

theorem without_of_length_le {b : Octets} (hstart : b.length ≤ start) (hstop : b.length ≤ stop) :
    without start stop b = b := by
  rw [without, List.take_of_length_le hstart, List.drop_eq_nil_of_le hstop, List.append_nil]

theorem without_of_le {b : Octets} (hstop : b.length ≤ stop) : without 0 stop b = [] := by
  rw [without, List.take_zero, List.drop_eq_nil_of_le hstop, List.append_nil]

theorem without_append_left (start stop : Nat) (a b : Octets) :
    without (a.length + start) (a.length + stop) (a ++ b) = a ++ without start stop b := by
  rw [without, List.take_length_add_append, List.drop_length_add_append, List.append_assoc, without]

theorem without_line (before line rest : Octets) :
    without before.length (before.length + (line.length + 2)) (before ++ (line ++ (crlf ++ rest))) =
      before ++ rest := by
  have hline : without 0 (line.length + 2) (line ++ (crlf ++ rest)) = rest := by
    rw [without, List.drop_length_add_append]
    rfl
  rw [← Nat.add_zero before.length, Nat.add_assoc, without_append_left, Nat.zero_add, hline]

theorem given_leaveOut (h : start ≤ stop) (calls : List Call) :
    given (leaveOut start stop calls) = without start stop (given calls) := by
  induction calls generalizing start stop with
  | nil => simp [leaveOut, given, without]
  | cons call calls ih =>
    cases call with
    | append piece =>
      have hrest := ih (Nat.sub_le_sub_right h piece.length)
      rw [given] at hrest
      rw [leaveOut, given, List.flatMap_cons, hrest]
      exact (without_append h piece (given calls)).symm
    | decode => exact ih h

end LeftOut

section FirstLine
variable {maxLine : Nat} {lines : List Octets} {line b q rest : Octets}

/-- The first of some lines ends within the limit. -/
theorem exists_crlfIndex? (hlines : ∀ l ∈ lines, Fits maxLine l) (hline : Fits maxLine line)
    (rest : Octets) : ∃ i ≤ maxLine,
      Octets.crlfIndex? (terminated lines ++ (line ++ (crlf ++ rest))) = some i ∧
      (lines = [] ∧ i = line.length ∨ i + 2 ≤ (terminated lines).length) := by
  cases lines with
  | nil => exact ⟨_, hline.length_le, hline.unbroken.crlfIndex?_append rest, .inl ⟨rfl, rfl⟩⟩
  | cons l lines =>
    obtain ⟨hl, -⟩ := List.forall_mem_cons.1 hlines
    rw [Octets.terminated_cons, List.append_assoc, List.append_assoc]
    refine ⟨_, hl.length_le, hl.unbroken.crlfIndex?_append _, .inr ?_⟩
    simp only [List.length_append, crlf, List.length_cons, List.length_nil]
    omega

/-- Octets in which no line ends are the beginning of the first line. It is either left out or it
comes before all that is. -/
theorem without_of_unbroken (hlines : ∀ l ∈ lines, Fits maxLine l) (hline : Fits maxLine line)
    (hb : Octets.crlfIndex? b = none)
    (hq : b ++ q = terminated lines ++ (line ++ (crlf ++ rest))) :
    without (terminated lines).length ((terminated lines).length + (line.length + 2)) b = b ∨
      without (terminated lines).length ((terminated lines).length + (line.length + 2)) b = [] := by
  obtain ⟨i, -, hi, hfirst⟩ := exists_crlfIndex? hlines hline rest
  rw [← hq] at hi
  have hle := Octets.length_le_of_crlfIndex?_append hb hi
  obtain ⟨rfl, rfl⟩ | hbefore := hfirst
  · right
    have hzero : (terminated []).length = 0 := rfl
    rw [hzero]
    exact without_of_le (by omega)
  · left
    exact without_of_length_le (by omega) (by omega)

theorem rescan_of_crlfIndex?_none (d : Decoder) (hb : Octets.crlfIndex? b = none) :
    ∃ r, d.rescan b = (r, d, b) := by
  cases hf : d.finished with
  | true => exact ⟨_, rescan_of_finished hf b⟩
  | false => exact ⟨_, rescan_of_none hf hb⟩

/-- Where a run has come to its end, nothing more is found if the line is left out. -/
theorem Halts.rescan_without {d : Decoder} {r : Except HeadError (Option Head)}
    (h : Halts r d b) (hr : isSettled r = false)
    (hlines : ∀ l ∈ lines, Fits d.maxLine l) (hline : Fits d.maxLine line)
    (hq : b ++ q = terminated lines ++ (line ++ (crlf ++ rest))) :
    let left := without (terminated lines).length
      ((terminated lines).length + (line.length + 2)) b
    ∃ r, d.rescan left = (r, d, left) := by
  intro left
  have hunbroken (hb : Octets.crlfIndex? b = none) : ∃ r, d.rescan left = (r, d, left) := by
    obtain hleft | hleft := without_of_unbroken hlines hline hb hq
    · rw [show left = b from hleft]
      exact rescan_of_crlfIndex?_none d hb
    · rw [show left = [] from hleft]
      exact ⟨_, rescan_nil d⟩
  cases h with
  | settled answer => simp [answer] at hr
  | finished hf => exact ⟨_, rescan_of_finished hf left⟩
  | short hf hb hl => exact hunbroken hb
  | endless hf hb hl => exact hunbroken hb
  | @long _ _ j hf hb hj =>
    -- the first line is one of those within the limit
    obtain ⟨i, hle, hi, -⟩ := exists_crlfIndex? hlines hline rest
    rw [← hq, Octets.crlfIndex?_append_of_some hb q] at hi
    obtain rfl : j = i := Option.some.inj hi
    omega

end FirstLine

theorem rescanReach_decode {d d' : Decoder} {b rest : Octets} {r : Except HeadError (Option Head)}
    (h : d.rescan b = (r, d', rest)) (calls : List Call) :
    d.rescanReach b (.decode :: calls) = d'.rescanReach rest calls := by
  rw [rescanReach, h]

/-- What follows whole lines that were taken in is left as it is. -/
theorem exists_rescan_append {d d' : Decoder} {taken left : Octets}
    {r : Except HeadError (Option Head)}
    (htaken : d.rescan taken = (if isSettled r then r else .ok none, d', []))
    (hleft : isSettled r = false → ∃ r, d'.rescan left = (r, d', left)) :
    ∃ r, d.rescan (taken ++ left) = (r, d', left) := by
  have happend := rescan_append htaken left
  cases hr : isSettled r with
  | true =>
    rw [hr, if_pos rfl, hr, if_pos rfl] at happend
    exact ⟨_, happend⟩
  | false =>
    obtain ⟨r', hr'⟩ := hleft hr
    rw [hr, if_neg Bool.false_ne_true] at happend
    exact ⟨r', happend.trans hr'⟩

/-- A run in which a line is left out that comes after all that was taken in. -/
theorem rescanReach_leaveOut {d df : Decoder} {b line rest : Octets} {lines : List Octets}
    {calls : List Call}
    (h : d.rescanReach b calls = (df, terminated lines ++ (line ++ (crlf ++ rest))))
    (hlines : ∀ l ∈ lines, Fits d.maxLine l) (hline : Fits d.maxLine line) :
    ∃ earlier, (∀ l ∈ earlier, Fits d.maxLine l) ∧
      b ++ given calls = terminated (earlier ++ lines) ++ (line ++ (crlf ++ rest)) ∧
      let start := (terminated (earlier ++ lines)).length
      let stop := start + (line.length + 2)
      d.rescanReach (without start stop b) (leaveOut (start - b.length) (stop - b.length) calls) =
        (df, terminated lines ++ rest) := by
  induction calls generalizing d b with
  | nil =>
    obtain ⟨rfl, rfl⟩ := Prod.mk.inj h
    refine ⟨[], List.forall_mem_nil _, List.append_nil _, ?_⟩
    exact congrArg (d, ·) (without_line (terminated lines) line rest)
  | cons call calls ih =>
    cases call with
    | append piece =>
      obtain ⟨earlier, hfits, hgiven, hreach⟩ := ih h hlines hline
      refine ⟨earlier, hfits, (List.append_assoc ..).symm.trans hgiven, ?_⟩
      dsimp only at hreach ⊢
      rw [without_append (Nat.le_add_right _ _), List.length_append, ← Nat.sub_sub,
        ← Nat.sub_sub] at hreach
      exact hreach
    | decode =>
      -- what is taken in ends before the line that is left out, so both runs take in the same
      obtain ⟨r, d', b', hrescan⟩ : ∃ r d' b', d.rescan b = (r, d', b') := ⟨_, _, _, rfl⟩
      obtain ⟨hhalts, hmax⟩ := halts_rescan hrescan
      rw [rescanReach_decode hrescan] at h
      rw [← hmax] at hlines hline
      obtain ⟨earlier, hfits, hgiven, hreach⟩ := ih h hlines hline
      obtain ⟨taken, rfl, htaken⟩ := exists_taken hrescan
      obtain ⟨before, rfl, hbefore⟩ := exists_lines_of_rescan htaken
      have hall : ∀ l ∈ earlier ++ lines, Fits d'.maxLine l :=
        List.forall_mem_append.2 ⟨hfits, hlines⟩
      obtain ⟨r', hleft⟩ := exists_rescan_append htaken fun hr =>
        hhalts.rescan_without hr hall hline hgiven
      have hterminated : terminated (before ++ earlier ++ lines) =
          terminated before ++ terminated (earlier ++ lines) := by
        rw [List.append_assoc, Octets.terminated_append]
      rw [hmax] at hfits
      refine ⟨before ++ earlier, List.forall_mem_append.2 ⟨hbefore, hfits⟩, ?_, ?_⟩
      · rw [hterminated, List.append_assoc, List.append_assoc, ← hgiven]
        rfl
      · dsimp only at hreach ⊢
        rw [hterminated, List.length_append, Nat.add_assoc, without_append_left, leaveOut,
          List.length_append, Nat.add_sub_add_left, Nat.add_sub_add_left,
          rescanReach_decode hleft]
        exact hreach

theorem maxLine_rescanReach (d : Decoder) (b : Octets) (calls : List Call) :
    (d.rescanReach b calls).1.maxLine = d.maxLine := by
  induction calls generalizing d b with
  | nil => rfl
  | cons call calls ih =>
    cases call with
    | append piece => exact ih d (b ++ piece)
    | decode =>
      obtain ⟨r, d', rest, hrescan⟩ : ∃ r d' rest, d.rescan b = (r, d', rest) := ⟨_, _, _, rfl⟩
      rw [rescanReach_decode hrescan, ih d' rest, (halts_rescan hrescan).2]

/-- `rescanReach_leaveOut`, from the start. -/
theorem rescanReach_new_leaveOut {maxLine : Nat} {d : Decoder} {line rest : Octets}
    {lines : List Octets} {calls : List Call}
    (h : (new maxLine).rescanReach [] calls = (d, terminated lines ++ (line ++ (crlf ++ rest))))
    (hlines : ∀ l ∈ lines, Fits maxLine l) (hline : Fits maxLine line) :
    ∃ earlier : Octets,
      given calls = earlier ++ (terminated lines ++ (line ++ (crlf ++ rest))) ∧
      let start := earlier.length + (terminated lines).length
      let others := leaveOut start (start + (line.length + 2)) calls
      given others = earlier ++ (terminated lines ++ rest) ∧
        (new maxLine).rescanReach [] others = (d, terminated lines ++ rest) := by
  obtain ⟨earlier, -, hgiven, hothers⟩ := rescanReach_leaveOut h hlines hline
  rw [List.nil_append] at hgiven
  rw [Octets.terminated_append, List.length_append] at hothers
  dsimp only at hothers
  rw [without_nil] at hothers
  refine ⟨terminated earlier, ?_, ?_, hothers⟩
  · rw [hgiven, Octets.terminated_append, List.append_assoc]
  · rw [given_leaveOut (Nat.le_add_right _ _), hgiven, ← List.length_append,
      ← Octets.terminated_append, without_line, Octets.terminated_append, List.append_assoc]

/-- What decoding comes to after some calls is told by what is left of them. -/
theorem outcomes_of_rescanReach {maxLine : Nat} {d : Decoder} {b : Octets} {calls : List Call}
    (h : (new maxLine).rescanReach [] calls = (d, b)) (more : List Call) :
    let (d', buffer) := (new maxLine).reach .empty calls
    d'.outcomes buffer more = d.rescanOutcomes b more := by
  obtain ⟨hrun, hsearched⟩ := (searched_new maxLine).reach_eq calls
  obtain ⟨rfl, rfl⟩ := Prod.mk.inj (h.symm.trans hrun)
  exact hsearched.outcomes_eq more

/-- Lines still in the buffer, or taken in already, make no difference to what decoding comes to. -/
theorem Reads.rescanOutcomes_append {d d' : Decoder} {lines : List Octets} (h : Reads d lines d')
    (hf : d.finished = false) (b : Octets) (calls : List Call) :
    d.rescanOutcomes (terminated lines ++ b) calls = d'.rescanOutcomes b calls := by
  induction calls generalizing b with
  | nil => rfl
  | cons call calls ih =>
    cases call with
    | append piece =>
      rw [rescanOutcomes, rescanOutcomes, List.append_assoc]
      exact ih (b ++ piece)
    | decode => rw [rescanOutcomes, rescanOutcomes, h.rescan_append hf]

/-- What a decoding has come to that failed with `e`, after `calls` that led to `d` and `buffer`.
Lines are taken in up to one that is too long and stays, or up to one that is refused and goes. All
is then as if the refused line had never been appended. -/
inductive Refused (maxLine : Nat) (calls : List Call) (d : Decoder) (buffer : Buffer) (o : Outcome) :
    HeadError → Prop
  | tooLong {lines : List Octets} {bad : Octets}
    (split : buffer.toOctets = terminated lines ++ bad)
    (reads : Reads d.rewind lines o.decoder.rewind) (exceeds : Exceeds maxLine bad)
    (left : o.buffer.toOctets = bad) : Refused maxLine calls d buffer o (.lineTooLong maxLine)
  | line {earlier : Octets} {lines : List Octets} {line rest : Octets} {e : HeadError}
    (split : buffer.toOctets = terminated lines ++ (line ++ (crlf ++ rest)))
    (reads : Reads d.rewind lines o.decoder.rewind) (fits : Fits maxLine line)
    (fault : (o.decoder.rewind.takeLine (latin1 line)).1 = .error e)
    (short : ∀ n, e ≠ .lineTooLong n) (left : o.buffer.toOctets = rest)
    (given_eq : given calls = earlier ++ buffer.toOctets)
    (likewise :
      let start := earlier.length + (terminated lines).length
      let others := leaveOut start (start + (line.length + 2)) calls
      given others = earlier ++ (terminated lines ++ rest) ∧
        ∀ more, let (d', buffer') := (new maxLine).reach .empty others
          o.decoder.outcomes o.buffer more = d'.outcomes buffer' more) :
    Refused maxLine calls d buffer o e

theorem refused_of_decode {maxLine : Nat} {calls : List Call} {d : Decoder} {buffer : Buffer}
    {e : HeadError} (hreach : (new maxLine).reach .empty calls = (d, buffer))
    (herror : (d.decode buffer).result = .error e) :
    Refused maxLine calls d buffer (d.decode buffer) e := by
  obtain ⟨hrun, hsearched⟩ := (searched_new maxLine).reach_eq calls
  rw [hreach] at hrun hsearched
  dsimp only at hrun hsearched
  obtain ⟨hview, hsearched'⟩ := view_decode hsearched
  rw [Outcome.view, herror] at hview
  have hmax : d.rewind.maxLine = maxLine :=
    (congrArg (·.1.maxLine) hrun).symm.trans (maxLine_rescanReach _ _ calls)
  have hf : d.rewind.finished = false := by
    refine Bool.eq_false_of_not_eq_true fun hf => ?_
    rw [rescan_of_finished hf] at hview
    simp at hview
  obtain ⟨lines, hreads, hblames⟩ := exists_reads_of_rescan hview.symm
  cases hblames with
  | tooLong split exceeds =>
    rw [hmax] at exceeds ⊢
    exact .tooLong split hreads exceeds rfl
  | @line line _ split fits fault =>
    have hshort : ∀ n, e ≠ .lineTooLong n := by
      cases takes_takeLine fault with
      | refused short => exact short
    have hlines := hreads.fits
    rw [hmax] at fits hlines
    rw [split] at hrun
    obtain ⟨earlier, hgiven, hothers, hrun'⟩ := rescanReach_new_leaveOut hrun hlines fits
    rw [← split] at hgiven
    have hlikewise (more : List Call) :=
      calc (d.decode buffer).decoder.outcomes (d.decode buffer).buffer more
        _ = (d.decode buffer).decoder.rewind.rescanOutcomes
              (d.decode buffer).buffer.toOctets more := hsearched'.outcomes_eq more
        _ = d.rewind.rescanOutcomes
              (terminated lines ++ (d.decode buffer).buffer.toOctets) more :=
          (hreads.rescanOutcomes_append hf _ more).symm
        _ = _ := (outcomes_of_rescanReach hrun' more).symm
    exact .line split hreads fits (congrArg Prod.fst fault) hshort rfl hgiven ⟨hothers, hlikewise⟩

theorem eq_error_of_map {r : Except HeadError (Option Head)} {e : HeadError}
    (h : r.map (fun _ => ()) = .error e) : r = .error e := by
  cases r with
  | error e' => exact congrArg Except.error (Except.error.inj h)
  | ok head => cases h

/-- A line without a colon comes in two pieces, with a decoding in between. -/
theorem refused_of_decode_malformed_field :
    let calls : List Call := [.append (Octets.ofText "HTTP/1.1 200 OK\r\nA: 1\r\nbro"), .decode,
      .append (Octets.ofText "ken\r\nB: 2\r\n\r\n")]
    let s := (new 100).reach .empty calls
    (s.1.decode s.2).result = .error (.malformedField "broken") ∧
      Refused 100 calls s.1 s.2 (s.1.decode s.2) (.malformedField "broken") := by
  intro calls s
  have hmap : (s.1.decode s.2).result.map (fun _ => ()) = .error (.malformedField "broken") := by
    decide +kernel
  have herror := eq_error_of_map hmap
  exact ⟨herror, refused_of_decode Prod.mk.eta.symm herror⟩

end HttpWire.Head.Decoder
