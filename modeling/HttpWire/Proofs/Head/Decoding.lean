import HttpWire.Proofs.Head.Chunks
import HttpWire.Proofs.Head.Grammar

/-! What octets decode to, told by their lines. The first line that is not as it must be decides,
and the blank line ends the head. -/
namespace HttpWire.Head
open Octets
variable {maxLine : Nat} {lines : List Octets} {status? : Option (Nat × String)}
  {pairs : List (String × String)}

/-- A line that ends within the limit. -/
structure Fits (maxLine : Nat) (line : Octets) : Prop where
  unbroken : Unbroken line
  length_le : line.length ≤ maxLine

/-- Lines that a head can begin with, and what they say. -/
inductive Opening (maxLine : Nat) :
    List Octets → Option (Nat × String) → List (String × String) → Prop
  | start : Opening maxLine [] none []
  | status {line : Octets} {status : Nat × String} (fits : Fits maxLine line)
    (read : IsStatusLine line status) : Opening maxLine [line] (some status) []
  | field {lines : List Octets} {status : Nat × String} {pairs : List (String × String)}
    {line : Octets} {pair : String × String} (before : Opening maxLine lines (some status) pairs)
    (fits : Fits maxLine line) (read : IsFieldLine line pair) :
    Opening maxLine (lines ++ [line]) (some status) (pairs ++ [pair])

/-- What octets come to, and which of them are left exceeds. -/
inductive Decodes (maxLine : Nat) : Octets → Except HeadError (Option Head) → Octets → Prop
  | head {lines : List Octets} {status : Nat} {reason : String} {pairs : List (String × String)}
    {headers : HeaderMap} (opening : Opening maxLine lines (some (status, reason)) pairs)
    (build : HeaderMap.ofPairs pairs = .ok headers) (rest : Octets) :
    Decodes maxLine (terminated lines ++ (crlf ++ rest)) (.ok (some ⟨status, reason, headers⟩)) rest
  | statusFault {line : Octets} {e : HeadError} (fits : Fits maxLine line)
    (fault : StatusFault line e) (rest : Octets) :
    Decodes maxLine (line ++ (crlf ++ rest)) (.error e) rest
  | fieldFault {lines : List Octets} {status : Nat × String} {pairs : List (String × String)}
    {line : Octets} {e : HeadError} (opening : Opening maxLine lines (some status) pairs)
    (fits : Fits maxLine line) (nonempty : line ≠ []) (fault : FieldFault line e) (rest : Octets) :
    Decodes maxLine (terminated lines ++ (line ++ (crlf ++ rest))) (.error e) rest
  | long {lines : List Octets} {status? : Option (Nat × String)} {pairs : List (String × String)}
    {line : Octets} (opening : Opening maxLine lines status? pairs) (unbroken : Unbroken line)
    (exceeds : maxLine < line.length) (rest : Octets) :
    Decodes maxLine (terminated lines ++ (line ++ (crlf ++ rest))) (.error (.lineTooLong maxLine))
      (line ++ (crlf ++ rest))
  | endless {lines : List Octets} {status? : Option (Nat × String)}
    {pairs : List (String × String)} {tail : Octets} (opening : Opening maxLine lines status? pairs)
    (unbroken : Unbroken tail) (exceeds : maxLine < tail.length) :
    Decodes maxLine (terminated lines ++ tail) (.error (.lineTooLong maxLine)) tail
  | unfinished {lines : List Octets} {status? : Option (Nat × String)}
    {pairs : List (String × String)} {tail : Octets} (opening : Opening maxLine lines status? pairs)
    (fits : Fits maxLine tail) : Decodes maxLine (terminated lines ++ tail) (.ok none) tail

namespace Decoder

/-- The decoder that has read a status line and headers, as far as they are there. -/
def reading (maxLine : Nat) (status? : Option (Nat × String)) (headers : HeaderMap) : Decoder :=
  ⟨maxLine, 0, status?, headers, false⟩

@[simp] theorem reading_maxLine (maxLine : Nat) (status? : Option (Nat × String))
    (headers : HeaderMap) : (reading maxLine status? headers).maxLine = maxLine := rfl

section OneLine
variable {status : Nat × String} {headers headers' : HeaderMap} {line : Octets}
  {pair : String × String} {e : HeadError}

theorem takeLine_status (h : IsStatusLine line status) :
    (reading maxLine none headers).takeLine (latin1 line) =
      (.ok none, reading maxLine (some status) headers) := by
  simp only [takeLine, reading, statusLine_of_isStatusLine h]

theorem takeLine_statusFault (h : StatusFault line e) :
    (reading maxLine none headers).takeLine (latin1 line) =
      (.error e, reading maxLine none headers) := by
  simp only [takeLine, reading, statusLine_of_statusFault h]

theorem takeLine_field (h : IsFieldLine line pair)
    (happend : headers.append pair.1 pair.2 = .ok headers') :
    (reading maxLine (some status) headers).takeLine (latin1 line) =
      (.ok none, reading maxLine (some status) headers') := by
  simp only [takeLine, reading, if_neg (mt latin1_eq_empty_iff.1 h.ne_nil),
    fieldLine_of_isFieldLine h happend]

theorem takeLine_fieldFault (hline : line ≠ []) (h : FieldFault line e) :
    (reading maxLine (some status) headers).takeLine (latin1 line) =
      (.error e, reading maxLine (some status) headers) := by
  simp only [takeLine, reading, if_neg (mt latin1_eq_empty_iff.1 hline), fieldLine_of_fieldFault h]

end OneLine

/-- A first line within the limit is what the decoder takes in next. -/
theorem rescan_fits {d : Decoder} {line : Octets} (hf : d.finished = false)
    (h : Fits d.maxLine line) (rest : Octets) : d.rescan (line ++ (crlf ++ rest)) =
      match d.takeLine (latin1 line) with
      | (.error e, d) => (.error e, d, rest)
      | (.ok (some head), d) => (.ok (some head), d, rest)
      | (.ok none, d) => d.rescan rest := by
  have hindex := h.unbroken.crlfIndex?_append rest
  have hshort : ¬ line.length > d.maxLine := Nat.not_lt.2 h.length_le
  have htake : (line ++ (crlf ++ rest)).take line.length = line := List.take_left
  have hdrop : (line ++ (crlf ++ rest)).drop (line.length + 2) = rest := by
    rw [List.drop_length_add_append]
    rfl
  split <;> rename_i ht <;> rw [← htake] at ht
  · rw [rescan_of_error hf hindex hshort ht, hdrop]
  · rw [rescan_of_head hf hindex hshort ht, hdrop]
  · rw [rescan_of_more hf hindex hshort ht, hdrop]

theorem rescan_line {line : Octets} (h : Fits maxLine line) (status? : Option (Nat × String))
    (headers : HeaderMap) (rest : Octets) :
    (reading maxLine status? headers).rescan (line ++ (crlf ++ rest)) =
      match (reading maxLine status? headers).takeLine (latin1 line) with
      | (.error e, d) => (.error e, d, rest)
      | (.ok (some head), d) => (.ok (some head), d, rest)
      | (.ok none, d) => d.rescan rest :=
  rescan_fits rfl h rest

end Decoder

/-- Lines that a head can begin with are taken in one by one. -/
theorem Opening.rescan_append (h : Opening maxLine lines status? pairs) :
    ∃ headers, HeaderMap.ofPairs pairs = .ok headers ∧ ∀ rest,
      (Decoder.new maxLine).rescan (terminated lines ++ rest) =
        (Decoder.reading maxLine status? headers).rescan rest := by
  induction h with
  | start => exact ⟨.empty, rfl, fun rest => rfl⟩
  | @status line status fits read =>
    refine ⟨.empty, rfl, fun rest => ?_⟩
    have hline := Decoder.rescan_line fits none .empty rest
    rw [Decoder.takeLine_status read] at hline
    rw [← List.nil_append [line], terminated_concat_append]
    exact hline
  | @field lines status pairs line pair before fits read ih =>
    obtain ⟨headers, hbuild, hrescan⟩ := ih
    obtain ⟨headers', happend⟩ := headers.exists_append read.problem?_eq
    refine ⟨headers', ?_, fun rest => ?_⟩
    · rw [HeaderMap.ofPairs_concat hbuild, happend]
    · rw [terminated_concat_append, hrescan, Decoder.rescan_line fits,
        Decoder.takeLine_field read happend]

theorem Opening.lines_eq_nil (h : Opening maxLine lines none pairs) : lines = [] := by
  cases h with
  | start => rfl

/-- A fresh decoder comes to what the lines say. -/
theorem Decodes.rescan_eq {b rest : Octets} {r : Except HeadError (Option Head)}
    (h : Decodes maxLine b r rest) : ∃ d, (Decoder.new maxLine).rescan b = (r, d, rest) := by
  cases h with
  | @head lines status reason pairs headers opening build =>
    obtain ⟨headers', hbuild, hrescan⟩ := opening.rescan_append
    obtain rfl : headers = headers' := Except.ok.inj (build.symm.trans hbuild)
    have hblank : Fits maxLine [] := ⟨fun i hat => by simp [LineEndAt] at hat, Nat.zero_le _⟩
    have hline := Decoder.rescan_line hblank (some (status, reason)) headers rest
    exact ⟨_, (hrescan _).trans hline⟩
  | statusFault fits fault =>
    have hline := Decoder.rescan_line fits none .empty rest
    rw [Decoder.takeLine_statusFault fault] at hline
    exact ⟨_, hline⟩
  | fieldFault opening fits nonempty fault =>
    obtain ⟨headers, -, hrescan⟩ := opening.rescan_append
    rw [hrescan, Decoder.rescan_line fits, Decoder.takeLine_fieldFault nonempty fault]
    exact ⟨_, rfl⟩
  | long opening unbroken exceeds rest =>
    obtain ⟨headers, -, hrescan⟩ := opening.rescan_append
    rw [hrescan, Decoder.rescan_of_long rfl (unbroken.crlfIndex?_append rest) exceeds]
    exact ⟨_, rfl⟩
  | endless opening unbroken exceeds =>
    obtain ⟨headers, -, hrescan⟩ := opening.rescan_append
    rw [hrescan, Decoder.rescan_of_none rfl (crlfIndex?_eq_none_iff.2 unbroken),
      Decoder.reading_maxLine, if_pos exceeds]
    exact ⟨_, rfl⟩
  | unfinished opening fits =>
    obtain ⟨headers, -, hrescan⟩ := opening.rescan_append
    rw [hrescan, Decoder.rescan_of_none rfl (crlfIndex?_eq_none_iff.2 fits.unbroken),
      Decoder.reading_maxLine, if_neg (Nat.not_lt.2 fits.length_le)]
    exact ⟨_, rfl⟩

/-- Whatever follows lines that a head can begin with, there is something it all comes to. -/
theorem Opening.exists_decodes (h : Opening maxLine lines status? pairs) (b : Octets) :
    ∃ r rest, Decodes maxLine (terminated lines ++ b) r rest := by
  -- each line taken in leaves fewer octets, and is one more that the head begins with
  induction hn : b.length using Nat.strong_induction_on generalizing lines status? pairs b with
  | h n ih =>
  obtain hnone | ⟨line, rest, hline, rfl⟩ := unbroken_or_eq_append b
  · by_cases hover : maxLine < b.length
    · exact ⟨_, _, .endless h hnone hover⟩
    · exact ⟨_, _, .unfinished h ⟨hnone, Nat.not_lt.1 hover⟩⟩
  by_cases hover : maxLine < line.length
  · exact ⟨_, _, .long h hline hover rest⟩
  have hfits : Fits maxLine line := ⟨hline, Nat.not_lt.1 hover⟩
  have hlt : rest.length < n := by
    rw [← hn]
    simp [crlf]
    omega
  cases hstatus : status? with
  | none =>
    subst hstatus
    obtain rfl := h.lines_eq_nil
    obtain ⟨status, hread⟩ | ⟨e, hfault⟩ := isStatusLine_or_statusFault line
    · rw [← terminated_concat_append]
      exact ih _ hlt (.status hfits hread) rest rfl
    · exact ⟨_, _, .statusFault hfits hfault rest⟩
  | some status =>
    subst hstatus
    by_cases hempty : line = []
    · obtain ⟨headers, hbuild, -⟩ := h.rescan_append
      subst hempty
      exact ⟨_, _, .head h hbuild rest⟩
    obtain ⟨pair, hread⟩ | ⟨e, hfault⟩ := isFieldLine_or_fieldFault line
    · rw [← terminated_concat_append]
      exact ih _ hlt (.field h hfits hread) rest rfl
    · exact ⟨_, _, .fieldFault h hfits hempty hfault rest⟩

theorem Decodes.feed_new {b rest : Octets} {r : Except HeadError (Option Head)}
    (h : Decodes maxLine b r rest) : ((Decoder.new maxLine).feed .empty b).result = r ∧
      ((Decoder.new maxLine).feed .empty b).buffer.toOctets = rest := by
  obtain ⟨d, hrescan⟩ := h.rescan_eq
  rw [Decoder.rescan_new, Decoder.Outcome.view, Prod.mk.injEq, Prod.mk.injEq] at hrescan
  exact ⟨hrescan.1, hrescan.2.2⟩

/-- More field lines. -/
theorem Opening.append_fields {α : Type} {status : Nat × String} {line : α → Octets}
    {pair : α → String × String} {fields : List α} (h : Opening maxLine lines (some status) pairs)
    (hfields : ∀ f ∈ fields, Fits maxLine (line f) ∧ IsFieldLine (line f) (pair f)) :
    Opening maxLine (lines ++ fields.map line) (some status) (pairs ++ fields.map pair) := by
  induction fields generalizing lines pairs with
  | nil => simpa using h
  | cons f fields ih =>
    obtain ⟨⟨hfits, hread⟩, hfields⟩ := List.forall_mem_cons.1 hfields
    have hrest := ih (h.field hfits hread) hfields
    rw [List.append_assoc, List.append_assoc] at hrest
    exact hrest

/-- One feed of a fresh decoder gives exactly what the lines say, and leaves exactly what they
leave. -/
theorem Decoder.feed_new_iff_decodes (maxLine : Nat) (b : Octets)
    (r : Except HeadError (Option Head)) (rest : Octets) :
    (((new maxLine).feed .empty b).result = r ∧
      ((new maxLine).feed .empty b).buffer.toOctets = rest) ↔ Decodes maxLine b r rest := by
  constructor
  · rintro ⟨rfl, rfl⟩
    obtain ⟨r, rest, h⟩ : ∃ r rest, Decodes maxLine b r rest := Opening.start.exists_decodes b
    obtain ⟨hresult, hbuffer⟩ := h.feed_new
    rw [hresult, hbuffer]
    exact h
  · exact Decodes.feed_new

end HttpWire.Head
