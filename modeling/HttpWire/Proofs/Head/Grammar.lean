import HttpWire.Proofs.Header.Fields
import HttpWire.Proofs.Octets.Texts
import HttpWire.Proofs.Text.Trimmed
import HttpWire.Response.Head

/-! The grammar of the lines of a head, octet by octet. Every line either has the form it must have,
and is read for what it says, or it has a first fault, and that is the error. -/
namespace HttpWire.Head
open Octets Text

/-- A space or a tab. -/
def isBlankOctet (o : UInt8) : Bool := o == 32 || o == 9

/-- The versions of the protocol that are read. -/
def knownVersions : List Octets := [ofText "HTTP/1.0", ofText "HTTP/1.1"]

/-- The octet is the decimal digit `n`. -/
def IsDigit (o : UInt8) (n : Nat) : Prop := o.toNat = 48 + n ∧ n < 10

inductive IsStatusCode : Octets → Nat → Prop
  | digits {a b c : UInt8} {x y z : Nat} (ha : IsDigit a x) (hb : IsDigit b y) (hc : IsDigit c z) :
    IsStatusCode [a, b, c] (100 * x + 10 * y + z)

/-- A version, three digits and any reason, with a space between them. -/
inductive IsStatusLine : Octets → Nat × String → Prop
  | parts {version code reason : Octets} {status : Nat} (known : version ∈ knownVersions)
    (digits : IsStatusCode code status) :
    IsStatusLine (version ++ 32 :: (code ++ 32 :: reason)) (status, latin1 reason)

/-- The first fault of a line that should be a status line. -/
inductive StatusFault : Octets → HeadError → Prop
  | parts {line : Octets} (few : line.count 32 < 2) :
    StatusFault line (.malformedStatusLine (latin1 line))
  | version {version rest : Octets} (word : 32 ∉ version) (more : 32 ∈ rest)
    (unknown : version ∉ knownVersions) :
    StatusFault (version ++ 32 :: rest) (.unsupportedVersion (latin1 version))
  | code {version code reason : Octets} (known : version ∈ knownVersions) (word : 32 ∉ code)
    (other : ∀ status, ¬ IsStatusCode code status) :
    StatusFault (version ++ 32 :: (code ++ 32 :: reason))
      (.malformedStatusLine (latin1 (version ++ 32 :: (code ++ 32 :: reason))))

/-- The first colon divides a line into a name and a value. Blanks around either do not count. -/
inductive Divides : Octets → Octets → Octets → Prop
  | colon {left right name value : Octets} (first : 58 ∉ left)
    (hname : Trimmed isBlankOctet left name) (hvalue : Trimmed isBlankOctet right value) :
    Divides (left ++ 58 :: right) name value

/-- The printing octets that separate tokens. -/
def separatorOctets : Octets := ofText "()<>@,;:\\\"/[]?=\x7b\x7d"

/-- Printing octets other than the space and the separators. -/
def IsToken (name : Octets) : Prop :=
  name ≠ [] ∧ ∀ o ∈ name, (32 < o.toNat ∧ o.toNat < 127) ∧ o ∉ separatorOctets

/-- No control characters other than tabs. -/
def IsPrinting (value : Octets) : Prop := ∀ o ∈ value, (o = 9 ∨ 32 ≤ o.toNat) ∧ o ≠ 127

inductive IsFieldLine : Octets → String × String → Prop
  | parts {line name value : Octets} (divides : Divides line name value)
    (token : IsToken name) (printing : IsPrinting value) :
    IsFieldLine line (latin1 name, latin1 value)

/-- The first fault of a line that should be a field line. -/
inductive FieldFault : Octets → HeadError → Prop
  | colon {line : Octets} (none : 58 ∉ line) : FieldFault line (.malformedField (latin1 line))
  | name {line name value : Octets} (divides : Divides line name value) (other : ¬ IsToken name) :
    FieldFault line (.field (.invalidName (latin1 name)))
  | value {line name value : Octets} (divides : Divides line name value)
    (token : IsToken name) (other : ¬ IsPrinting value) :
    FieldFault line (.field (.invalidValue (latin1 name) (latin1 value)))

theorem splitFirst?_latin1_append {c : Char} {o : UInt8} (hc : Char.ofUInt8 o = c) {left : Octets}
    (h : o ∉ left) (right : Octets) : splitFirst? c (latin1 (left ++ o :: right)).toList =
      some ((latin1 left).toList, (latin1 right).toList) := by
  subst hc
  have hleft : Char.ofUInt8 o ∉ left.map Char.ofUInt8 := by
    rw [List.mem_map_of_injective ofUInt8_injective]
    exact h
  simp only [toList_latin1, List.map_append, List.map_cons]
  exact splitFirst?_append hleft _

theorem splitFirst?_latin1_eq_none {c : Char} {o : UInt8} (hc : Char.ofUInt8 o = c) {b : Octets}
    (h : o ∉ b) : splitFirst? c (latin1 b).toList = none := by
  subst hc
  refine splitFirst?_eq_none ?_
  rw [toList_latin1, List.mem_map_of_injective ofUInt8_injective]
  exact h

section StatusLine

theorem digit?_eq_some_iff {o : UInt8} {n : Nat} :
    digit? (Char.ofUInt8 o) = some n ↔ IsDigit o n := by
  have hbounds : ('0' ≤ Char.ofUInt8 o ∧ Char.ofUInt8 o ≤ '9') ↔ 48 ≤ o.toNat ∧ o.toNat ≤ 57 := by
    rw [Char.le_def, Char.le_def, UInt32.le_iff_toNat_le, UInt32.le_iff_toNat_le]
    rfl
  rw [digit?, IsDigit]
  split
  · rename_i h
    rw [hbounds] at h
    rw [Option.some.injEq, toNat_ofUInt8]
    omega
  · rename_i h
    rw [hbounds] at h
    simp only [reduceCtorEq, false_iff]
    omega

theorem statusCode?_eq_some_iff {code : Octets} {status : Nat} :
    statusCode? (latin1 code).toList = some status ↔ IsStatusCode code status := by
  rw [toList_latin1]
  constructor
  · intro h
    match code with
    | [a, b, c] =>
      simp only [List.map_cons, List.map_nil, statusCode?, digits?, Option.bind_eq_some_iff,
        digit?_eq_some_iff, Option.some.injEq] at h
      obtain ⟨x, hx, y, hy, z, hz, rfl⟩ := h
      have hvalue : 10 * (10 * (10 * 0 + x) + y) + z = 100 * x + 10 * y + z := by omega
      rw [hvalue]
      exact .digits hx hy hz
    | [] => simp [statusCode?] at h
    | [_] => simp [statusCode?] at h
    | [_, _] => simp [statusCode?] at h
    | _ :: _ :: _ :: _ :: _ => simp [statusCode?] at h
  · rintro ⟨ha, hb, hc⟩
    rename_i a b c x y z
    have hvalue : 10 * (10 * (10 * 0 + x) + y) + z = 100 * x + 10 * y + z := by omega
    simp only [List.map_cons, List.map_nil, statusCode?, digits?, digit?_eq_some_iff.2 ha,
      digit?_eq_some_iff.2 hb, digit?_eq_some_iff.2 hc, Option.bind_some, hvalue]

theorem mem_knownVersions_iff {version : Octets} : version ∈ knownVersions ↔
    (latin1 version).toList = "HTTP/1.0".toList ∨ (latin1 version).toList = "HTTP/1.1".toList := by
  have h₀ : latin1 (ofText "HTTP/1.0") = "HTTP/1.0" := by decide +kernel
  have h₁ : latin1 (ofText "HTTP/1.1") = "HTTP/1.1" := by decide +kernel
  rw [String.toList_inj, String.toList_inj, ← h₀, ← h₁, latin1_injective.eq_iff,
    latin1_injective.eq_iff, knownVersions, List.mem_pair]

theorem not_mem_of_mem_knownVersions {version : Octets} (h : version ∈ knownVersions) :
    32 ∉ version := by
  rw [knownVersions, List.mem_pair] at h
  obtain rfl | rfl := h <;> decide +kernel

theorem not_mem_of_isStatusCode {code : Octets} {status : Nat} (h : IsStatusCode code status) :
    32 ∉ code := by
  obtain ⟨ha, hb, hc⟩ := h
  have hne {o : UInt8} {n : Nat} (ho : IsDigit o n) : 32 ≠ o := by
    rintro rfl
    have hvalue : 32 = 48 + n := ho.1
    omega
  simp only [List.mem_cons, List.not_mem_nil, or_false, not_or]
  exact ⟨hne ha, hne hb, hne hc⟩

theorem statusLine_latin1 {version code : Octets} (hversion : 32 ∉ version) (hcode : 32 ∉ code)
    (reason : Octets) : statusLine (latin1 (version ++ 32 :: (code ++ 32 :: reason))) =
      if version ∈ knownVersions then
        match statusCode? (latin1 code).toList with
        | none => .error (.malformedStatusLine (latin1 (version ++ 32 :: (code ++ 32 :: reason))))
        | some status => .ok (status, latin1 reason)
      else .error (.unsupportedVersion (latin1 version)) := by
  have hsplit := splitFirst?_latin1_append (c := ' ') rfl hversion (code ++ 32 :: reason)
  have hsplit' := splitFirst?_latin1_append (c := ' ') rfl hcode reason
  simp only [statusLine, hsplit, hsplit', String.ofList_toList]
  by_cases hknown : version ∈ knownVersions
  · have heither := mem_knownVersions_iff.1 hknown
    rw [if_pos hknown]
    exact if_neg fun h => heither.elim h.1 h.2
  · have hneither := mt mem_knownVersions_iff.2 hknown
    rw [if_neg hknown, if_pos (not_or.1 hneither)]

theorem statusLine_of_count_lt {line : Octets} (h : line.count 32 < 2) :
    statusLine (latin1 line) = .error (.malformedStatusLine (latin1 line)) := by
  by_cases hmem : 32 ∈ line
  · obtain ⟨left, right, rfl, hleft⟩ := List.eq_append_cons_of_mem hmem
    have hright : 32 ∉ right := by
      rw [List.count_append, List.count_cons_self] at h
      exact List.count_eq_zero.1 (by omega)
    have hsplit := splitFirst?_latin1_append (c := ' ') rfl hleft right
    have hsplit' := splitFirst?_latin1_eq_none (c := ' ') rfl hright
    simp only [statusLine, hsplit, hsplit']
  · have hsplit := splitFirst?_latin1_eq_none (c := ' ') rfl hmem
    simp only [statusLine, hsplit]

theorem statusLine_of_isStatusLine {line : Octets} {status : Nat × String}
    (h : IsStatusLine line status) : statusLine (latin1 line) = .ok status := by
  cases h with
  | parts known digits =>
    rw [statusLine_latin1 (not_mem_of_mem_knownVersions known) (not_mem_of_isStatusCode digits),
      if_pos known, statusCode?_eq_some_iff.2 digits]

theorem statusLine_of_statusFault {line : Octets} {e : HeadError} (h : StatusFault line e) :
    statusLine (latin1 line) = .error e := by
  cases h with
  | parts few => exact statusLine_of_count_lt few
  | version word more unknown =>
    obtain ⟨code, reason, rfl, hcode⟩ := List.eq_append_cons_of_mem more
    rw [statusLine_latin1 word hcode, if_neg unknown]
  | @code version code reason known word other =>
    have hnone : statusCode? (latin1 code).toList = none := by
      refine Option.eq_none_iff_forall_ne_some.2 fun status hstatus => ?_
      exact other status (statusCode?_eq_some_iff.1 hstatus)
    rw [statusLine_latin1 (not_mem_of_mem_knownVersions known) word, if_pos known, hnone]

/-- A line is a status line, or it has a fault. -/
theorem isStatusLine_or_statusFault (line : Octets) :
    (∃ status, IsStatusLine line status) ∨ ∃ e, StatusFault line e := by
  by_cases hcount : line.count 32 < 2
  · exact .inr ⟨_, .parts hcount⟩
  have hmem : 32 ∈ line := List.count_pos_iff.1 (by omega)
  obtain ⟨version, rest, rfl, hversion⟩ := List.eq_append_cons_of_mem hmem
  have hrest : 32 ∈ rest := by
    rw [List.count_append, List.count_cons_self, List.count_eq_zero.2 hversion] at hcount
    exact List.count_pos_iff.1 (by omega)
  by_cases hknown : version ∈ knownVersions
  · obtain ⟨code, reason, rfl, hcode⟩ := List.eq_append_cons_of_mem hrest
    by_cases hstatus : ∃ status, IsStatusCode code status
    · obtain ⟨status, hstatus⟩ := hstatus
      exact .inl ⟨_, .parts hknown hstatus⟩
    · exact .inr ⟨_, .code hknown hcode (not_exists.1 hstatus)⟩
  · exact .inr ⟨_, .version hversion hrest hknown⟩

end StatusLine

section FieldLine

theorem isSpaceOrTab_ofUInt8 (o : UInt8) : isSpaceOrTab (Char.ofUInt8 o) = isBlankOctet o := by
  have heq (o' : UInt8) : (Char.ofUInt8 o == Char.ofUInt8 o') = (o == o') := by
    rw [Bool.eq_iff_iff, beq_iff_eq, beq_iff_eq, ofUInt8_injective.eq_iff]
  show (Char.ofUInt8 o == Char.ofUInt8 32 || Char.ofUInt8 o == Char.ofUInt8 9) = _
  rw [heq, heq]
  rfl

theorem ofList_trim_latin1 {whole core : Octets} (h : Trimmed isBlankOctet whole core) :
    String.ofList (trim isSpaceOrTab (latin1 whole).toList) = latin1 core := by
  have hmap := h.map (q := isSpaceOrTab) (f := Char.ofUInt8) isSpaceOrTab_ofUInt8
  rw [toList_latin1, trim_eq_iff.2 hmap]
  rfl

/-- A line that divides adds its value under its name, if they are valid. -/
theorem fieldLine_of_divides {line name value : Octets} (h : Divides line name value)
    (headers : HeaderMap) : fieldLine headers (latin1 line) =
      (headers.append (latin1 name) (latin1 value)).mapError .field := by
  cases h with
  | @colon left right _ _ first hname hvalue =>
    have hsplit := splitFirst?_latin1_append (c := ':') rfl first right
    simp only [fieldLine, hsplit, ofList_trim_latin1 hname, ofList_trim_latin1 hvalue]

theorem separators_eq : Field.separators = separatorOctets.map Char.ofUInt8 := by
  decide +kernel

theorem isToken_latin1_iff {name : Octets} :
    Field.isToken (latin1 name) = true ↔ IsToken name := by
  have hoctet (o : UInt8) : Field.isTokenChar (Char.ofUInt8 o) = true ↔
      (32 < o.toNat ∧ o.toNat < 127) ∧ o ∉ separatorOctets := by
    simp only [Field.isTokenChar, separators_eq, Bool.and_eq_true, decide_eq_true_eq,
      Bool.not_eq_true', List.contains_eq_mem, decide_eq_false_iff_not,
      List.mem_map_of_injective ofUInt8_injective]
    rfl
  simp only [Field.isToken, toList_latin1, Bool.and_eq_true, Bool.not_eq_true',
    List.isEmpty_eq_false_iff, ne_eq, List.map_eq_nil_iff, List.all_map, List.all_eq_true]
  exact and_congr_right fun _ => forall₂_congr fun o _ => hoctet o

theorem isValue_latin1_iff {value : Octets} :
    Field.isValue (latin1 value) = true ↔ IsPrinting value := by
  have hoctet (o : UInt8) : Field.isValueChar (Char.ofUInt8 o) = true ↔
      (o = 9 ∨ 32 ≤ o.toNat) ∧ o ≠ 127 := by
    have hlt : o.toNat < 256 := o.toNat_lt
    have hblank := isSpaceOrTab_ofUInt8 o
    rw [isSpaceOrTab, isBlankOctet] at hblank
    simp only [Field.isValueChar, hblank, Bool.or_eq_true, Bool.and_eq_true, decide_eq_true_eq,
      bne_iff_ne, beq_iff_eq, ne_eq]
    simp only [toNat_ofUInt8, ← UInt8.toNat_inj, UInt8.reduceToNat]
    omega
  rw [Field.isValue, toList_latin1, List.all_map, List.all_eq_true]
  exact forall₂_congr fun o _ => hoctet o

theorem IsFieldLine.ne_nil {line : Octets} {pair : String × String} (h : IsFieldLine line pair) :
    line ≠ [] := by
  obtain ⟨divides, -, -⟩ := h
  obtain ⟨-, -, -⟩ := divides
  simp

theorem IsFieldLine.problem?_eq {line : Octets} {pair : String × String}
    (h : IsFieldLine line pair) : Field.problem? pair.1 pair.2 = none := by
  cases h with
  | parts divides token printing =>
    exact Field.problem?_eq_none_iff.2 ⟨isToken_latin1_iff.2 token, isValue_latin1_iff.2 printing⟩

theorem fieldLine_of_isFieldLine {line : Octets} {pair : String × String}
    (h : IsFieldLine line pair) {headers headers' : HeaderMap}
    (happend : headers.append pair.1 pair.2 = .ok headers') :
    fieldLine headers (latin1 line) = .ok headers' := by
  cases h with
  | parts divides token printing =>
    rw [fieldLine_of_divides divides, happend]
    rfl

theorem fieldLine_of_fieldFault {line : Octets} {e : HeadError} (h : FieldFault line e)
    (headers : HeaderMap) : fieldLine headers (latin1 line) = .error e := by
  cases h with
  | colon none =>
    have hsplit := splitFirst?_latin1_eq_none (c := ':') rfl none
    simp only [fieldLine, hsplit]
  | @name name value divides other =>
    have hother : Field.isToken (latin1 name) = false := by
      simpa using mt isToken_latin1_iff.1 other
    have hproblem : Field.problem? (latin1 name) (latin1 value) =
        some (.invalidName (latin1 name)) := by
      simp [Field.problem?, hother]
    rw [fieldLine_of_divides divides, HeaderMap.append_of_problem hproblem]
    rfl
  | @value name value divides token other =>
    have htoken : Field.isToken (latin1 name) = true := isToken_latin1_iff.2 token
    have hother : Field.isValue (latin1 value) = false := by
      simpa using mt isValue_latin1_iff.1 other
    have hproblem : Field.problem? (latin1 name) (latin1 value) =
        some (.invalidValue (latin1 name) (latin1 value)) := by
      simp [Field.problem?, htoken, hother]
    rw [fieldLine_of_divides divides, HeaderMap.append_of_problem hproblem]
    rfl

/-- A line is a field line, or it has a fault. -/
theorem isFieldLine_or_fieldFault (line : Octets) :
    (∃ pair, IsFieldLine line pair) ∨ ∃ e, FieldFault line e := by
  by_cases hmem : 58 ∈ line
  · obtain ⟨left, right, rfl, hleft⟩ := List.eq_append_cons_of_mem hmem
    have hdivides := Divides.colon hleft (trimmed_rdropWhile_dropWhile isBlankOctet left)
      (trimmed_rdropWhile_dropWhile isBlankOctet right)
    generalize (left.dropWhile isBlankOctet).rdropWhile isBlankOctet = name at hdivides
    generalize (right.dropWhile isBlankOctet).rdropWhile isBlankOctet = value at hdivides
    by_cases htoken : IsToken name
    · by_cases hprinting : IsPrinting value
      · exact .inl ⟨_, .parts hdivides htoken hprinting⟩
      · exact .inr ⟨_, .value hdivides htoken hprinting⟩
    · exact .inr ⟨_, .name hdivides htoken⟩
  · exact .inr ⟨_, .colon hmem⟩

end FieldLine

end HttpWire.Head
