import HttpWire.Proofs.Text.Numerals
import HttpWire.Proofs.Text.Trimmed
import HttpWire.Uri.Parser

/-! The parts of an authority: user information, host and port. The brackets in an authority that
was read are one pair, or there are none, so that no colon in front of the host or inside of its
brackets can be taken for that of a port. -/
namespace HttpWire.Uri

theorem forall_mem_bne {c : Char} {cs : List Char} (h : c ∉ cs) : ∀ d ∈ cs, (d != c) = true := by
  intro d hd
  refine bne_iff_ne.2 ?_
  rintro rfl
  exact h hd

theorem afterLast_append {c : Char} {back : List Char} (h : c ∉ back) (front : List Char) :
    afterLast c (front ++ back) = afterLast c front ++ back := by
  have hback := forall_mem_bne fun hmem : c ∈ back.reverse => h (List.mem_reverse.1 hmem)
  rw [afterLast, List.reverse_append, List.takeWhile_append_of_pos hback, List.reverse_append,
    List.reverse_reverse]
  rfl

theorem afterLast_concat (c : Char) (front : List Char) : afterLast c (front ++ [c]) = [] := by
  rw [afterLast, List.reverse_concat, List.takeWhile_cons_of_neg (by simp), List.reverse_nil]

theorem afterLast_eq {c : Char} {front back : List Char} (h : c ∉ back)
    (hfront : front = [] ∨ ∃ before, front = before ++ [c]) :
    afterLast c (front ++ back) = back := by
  rw [afterLast_append h]
  obtain rfl | ⟨before, rfl⟩ := hfront
  · rfl
  · rw [afterLast_concat, List.nil_append]

/-- What is in front of the part after the last `c` ends with that `c`, if there is one. -/
theorem exists_append_afterLast (c : Char) (cs : List Char) :
    ∃ front, cs = front ++ afterLast c cs ∧ c ∉ afterLast c cs ∧
      (front = [] ∨ ∃ before, front = before ++ [c]) := by
  induction cs using List.reverseRecOn with
  | nil => exact ⟨[], rfl, List.not_mem_nil, .inl rfl⟩
  | append_singleton cs d ih =>
    by_cases hd : d = c
    · subst hd
      rw [afterLast_concat]
      exact ⟨cs ++ [d], (List.append_nil _).symm, List.not_mem_nil, .inr ⟨cs, rfl⟩⟩
    · have hne : c ∉ [d] := fun hmem => hd (List.mem_singleton.1 hmem).symm
      obtain ⟨front, heq, hnone, hfront⟩ := ih
      rw [afterLast_append hne]
      refine ⟨front, ?_, ?_, hfront⟩
      · rw [← List.append_assoc, ← heq]
      · exact fun hmem => (List.mem_append.1 hmem).elim hnone hne

/-- No bracket of either kind. -/
def Bracketless (cs : List Char) : Prop := '[' ∉ cs ∧ ']' ∉ cs

/-- No brackets, or one pair. -/
inductive Paired : List Char → Prop
  | absent {cs : List Char} (free : Bracketless cs) : Paired cs
  | pair {before inside after : List Char} (before_free : Bracketless before)
    (inside_free : Bracketless inside) (after_free : Bracketless after) :
    Paired (before ++ '[' :: (inside ++ ']' :: after))

theorem Paired.count_le_one {cs : List Char} (h : Paired cs) : cs.count ']' ≤ 1 := by
  cases h with
  | absent free =>
    rw [List.count_eq_zero.2 free.2]
    exact Nat.zero_le 1
  | pair before_free inside_free after_free =>
    rw [List.count_append, List.count_cons_of_ne (by decide), List.count_append,
      List.count_cons_self, List.count_eq_zero.2 before_free.2, List.count_eq_zero.2 inside_free.2,
      List.count_eq_zero.2 after_free.2]

theorem bracketless_concat {cs : List Char} {c : Char} (h : Bracketless cs) (hopen : c ≠ '[')
    (hclose : c ≠ ']') : Bracketless (cs ++ [c]) := by
  constructor
  · intro hmem
    exact (List.mem_append.1 hmem).elim h.1 fun hlast => hopen (List.mem_singleton.1 hlast).symm
  · intro hmem
    exact (List.mem_append.1 hmem).elim h.2 fun hlast => hclose (List.mem_singleton.1 hlast).symm

namespace AuthorityScan
variable {s s' : AuthorityScan} {c : Char} {cs : List Char}

/-- What a character does to the brackets. -/
theorem step_brackets (h : s.step c = .ok s') :
    (c = '[' ∧ s.opened = false ∧ s'.opened = true ∧ s'.closed = s.closed) ∨
    (c = ']' ∧ s.opened = true ∧ s.closed = false ∧ s'.opened = true ∧ s'.closed = true) ∨
    (c ≠ '[' ∧ c ≠ ']' ∧ s'.opened = s.opened ∧ s'.closed = s.closed) := by
  unfold step at h
  split at h
  · rename_i hc
    subst hc
    split at h
    · simp at h
    · obtain rfl := Except.ok.inj h
      exact .inr (.inr ⟨by decide, by decide, rfl, rfl⟩)
  split at h
  · rename_i hc
    split at h
    · simp at h
    · rename_i hopened
      obtain rfl := Except.ok.inj h
      have hunopened : s.percent = false ∧ s.opened = false := by simpa using hopened
      exact .inl ⟨hc, hunopened.2, rfl, rfl⟩
  split at h
  · rename_i hc
    split at h
    · simp at h
    · rename_i hstate
      obtain rfl := Except.ok.inj h
      have hstate : s.opened = true ∧ s.closed = false := by simpa using hstate
      exact .inr (.inl ⟨hc, hstate.1, hstate.2, hstate.1, rfl⟩)
  rename_i hopen hclose
  refine .inr (.inr ⟨hopen, hclose, ?_⟩)
  split at h
  · obtain rfl := Except.ok.inj h
    exact ⟨rfl, rfl⟩
  split at h
  · obtain rfl := Except.ok.inj h
    exact ⟨rfl, rfl⟩
  split at h
  · obtain rfl := Except.ok.inj h
    exact ⟨rfl, rfl⟩
  · simp at h

/-- The brackets in what was scanned. -/
inductive Brackets (s : AuthorityScan) : List Char → Prop
  | absent {cs : List Char} (opened : s.opened = false) (closed : s.closed = false)
    (free : Bracketless cs) : Brackets s cs
  | opened {before inside : List Char} (opened : s.opened = true) (closed : s.closed = false)
    (before_free : Bracketless before) (inside_free : Bracketless inside) :
    Brackets s (before ++ '[' :: inside)
  | paired {before inside after : List Char} (opened : s.opened = true) (closed : s.closed = true)
    (before_free : Bracketless before) (inside_free : Bracketless inside)
    (after_free : Bracketless after) : Brackets s (before ++ '[' :: (inside ++ ']' :: after))

theorem Brackets.step (h : s.Brackets cs) (hstep : s.step c = .ok s') :
    s'.Brackets (cs ++ [c]) := by
  obtain ⟨rfl, hunopened, hopened, hclosed⟩ | ⟨rfl, hopen, hunclosed, hopened, hclosed⟩ |
    ⟨hopen, hclose, hopened, hclosed⟩ := step_brackets hstep
  · cases h with
    | absent _ closed free =>
      exact .opened hopened (hclosed.trans closed) free ⟨List.not_mem_nil, List.not_mem_nil⟩
    | opened opened => simp [hunopened] at opened
    | paired opened => simp [hunopened] at opened
  · cases h with
    | absent opened => simp [hopen] at opened
    | @opened before inside _ _ before_free inside_free =>
      rw [List.append_assoc, List.cons_append]
      exact .paired hopened hclosed before_free inside_free ⟨List.not_mem_nil, List.not_mem_nil⟩
    | paired _ closed => simp [hunclosed] at closed
  · cases h with
    | absent opened closed free =>
      exact .absent (hopened.trans opened) (hclosed.trans closed)
        (bracketless_concat free hopen hclose)
    | opened opened closed before_free inside_free =>
      rw [List.append_assoc, List.cons_append]
      exact .opened (hopened.trans opened) (hclosed.trans closed) before_free
        (bracketless_concat inside_free hopen hclose)
    | paired opened closed before_free inside_free after_free =>
      rw [List.append_assoc, List.cons_append, List.append_assoc, List.cons_append]
      exact .paired (hopened.trans opened) (hclosed.trans closed) before_free inside_free
        (bracketless_concat after_free hopen hclose)

theorem brackets_of_foldlM (h : cs.foldlM step start = .ok s) : s.Brackets cs := by
  -- from the back, as a step adds to what was scanned before it
  induction cs using List.reverseRecOn generalizing s with
  | nil =>
    obtain rfl := Except.ok.inj h
    exact .absent rfl rfl ⟨List.not_mem_nil, List.not_mem_nil⟩
  | append_singleton cs c ih =>
    rw [List.foldlM_append] at h
    cases hfront : cs.foldlM step start with
    | error e => simp [hfront, bind, Except.bind] at h
    | ok middle =>
      have hlast : (middle.step c >>= pure) = .ok s := by
        simpa [hfront, bind, Except.bind] using h
      rw [bind_pure] at hlast
      exact (ih hfront).step hlast

end AuthorityScan

theorem paired_of_checkAuthority {cs : List Char} (h : checkAuthority cs = .ok ()) :
    Paired cs := by
  unfold checkAuthority at h
  split at h
  · simp at h
  rename_i s hscan
  split at h
  swap
  · simp at h
  rename_i hend
  have hflags : s.opened = s.closed := by
    simp only [AuthorityScan.mayEnd, Bool.and_eq_true, beq_iff_eq] at hend
    exact hend.1.1.1
  cases AuthorityScan.brackets_of_foldlM hscan with
  | absent _ _ free => exact .absent free
  | opened opened closed => simp [opened, closed] at hflags
  | paired _ _ before_free inside_free after_free =>
    exact .pair before_free inside_free after_free

theorem paired_of_splitAuthority {cs authority rest : List Char}
    (h : splitAuthority cs = .ok (authority, rest)) : Paired authority := by
  unfold splitAuthority at h
  split at h
  · simp at h
  dsimp only at h
  split at h
  · simp at h
  · rename_i hcheck
    obtain ⟨rfl, -⟩ := Prod.mk.inj (Except.ok.inj h)
    exact paired_of_checkAuthority hcheck

section Read
variable {cs : List Char} {u : Uri}

/-- The brackets of a target's authority, if it has an authority. -/
def HasPairedAuthority (u : Uri) : Prop := ∀ a ∈ u.authority, Paired a.toList

theorem hasPairedAuthority_of_ofParts {scheme : Option String} {authority : Option (List Char)}
    {path : List Char} {query : Option (List Char)}
    (h : ofParts scheme authority path query = .ok u) (hpaired : ∀ a ∈ authority, Paired a) :
    u.HasPairedAuthority := by
  unfold ofParts at h
  split at h
  · obtain rfl := Except.ok.inj h
    rintro a ha
    obtain ⟨chars, hchars, rfl⟩ := Option.map_eq_some_iff.1 ha
    rw [String.toList_ofList]
    exact hpaired chars hchars
  · simp at h

theorem hasPairedAuthority_of_ofPath (h : ofPath cs = .ok u) : u.HasPairedAuthority := by
  unfold ofPath at h
  split at h
  · simp at h
  · exact hasPairedAuthority_of_ofParts h (by simp)

theorem hasPairedAuthority_of_ofAuthority {otherwise : ParseError}
    (h : ofAuthority cs otherwise = .ok u) : u.HasPairedAuthority := by
  unfold ofAuthority at h
  split at h
  · simp at h
  · rename_i authority hsplit
    refine hasPairedAuthority_of_ofParts h fun a ha => ?_
    obtain rfl := Option.some.inj ha
    exact paired_of_splitAuthority hsplit
  · simp at h

theorem hasPairedAuthority_of_ofHierarchy {scheme : String} (h : ofHierarchy scheme cs = .ok u) :
    u.HasPairedAuthority := by
  unfold ofHierarchy at h
  split at h
  · simp at h
  · simp at h
  rename_i authority rest _ hsplit
  split at h
  · simp at h
  refine hasPairedAuthority_of_ofParts h fun a ha => ?_
  obtain rfl := Option.some.inj ha
  exact paired_of_splitAuthority hsplit

theorem hasPairedAuthority_of_parse {text : String} (h : parse text = .ok u) :
    u.HasPairedAuthority := by
  unfold parse at h
  dsimp only at h
  split at h
  · simp at h
  split at h
  · simp at h
  split at h
  · exact hasPairedAuthority_of_ofPath h
  split at h
  · exact hasPairedAuthority_of_ofPath h
  split at h
  · exact hasPairedAuthority_of_ofAuthority h
  split at h
  · simp at h
  · exact hasPairedAuthority_of_ofAuthority h
  · exact hasPairedAuthority_of_ofHierarchy h

end Read

/-- A number below 2^16 in decimal digits. A plus sign may stand in front of them. -/
def IsPort (text : List Char) (n : Nat) : Prop :=
  n < 65536 ∧ (Text.IsNumeral text n ∨ ∃ digits, text = '+' :: digits ∧ Text.IsNumeral digits n)

theorem numeral?_eq_some_iff_isPort {text : List Char} {n : Nat} :
    Text.numeral? 65536 text = some n ↔ IsPort text n := by
  rw [Text.numeral?_eq_some_iff, Text.isNumeral_dropPlus_iff, and_comm]
  rfl

theorem not_isPort_nil (n : Nat) : ¬ IsPort [] n := by
  intro h
  have hread := numeral?_eq_some_iff_isPort.2 h
  simp [Text.numeral?, Text.dropPlus] at hread

theorem IsPort.isDigit {text : List Char} {n : Nat} {c : Char} (h : IsPort text n)
    (hc : c ∈ text) (hplus : c ≠ '+') : c.isDigit = true := by
  obtain hnumeral | ⟨digits, rfl, hnumeral⟩ := h.2
  · exact hnumeral.isDigit c hc
  · exact hnumeral.isDigit c ((List.mem_cons.1 hc).resolve_left hplus)

/-- The last colon is not that of a port if a character that no numeral has comes after it. -/
theorem portOf_append_cons {c : Char} {back : List Char} (hback : ':' ∉ back)
    (hdigit : c.isDigit = false) (hplus : c ≠ '+') (hcolon : c ≠ ':') (front : List Char) :
    portOf (front ++ c :: back) = none := by
  rw [portOf]
  split
  swap
  · rfl
  have hnone : ':' ∉ c :: back := fun hmem => (List.mem_cons.1 hmem).elim hcolon.symm hback
  rw [Option.eq_none_iff_forall_ne_some]
  intro n hread
  rw [afterLast_append hnone] at hread
  have hisDigit := (numeral?_eq_some_iff_isPort.1 hread).isDigit
    (List.mem_append_right _ List.mem_cons_self) hplus
  exact Bool.false_ne_true (hdigit.symm.trans hisDigit)

theorem portOf_of_not_mem {authority : List Char} (h : ':' ∉ authority) :
    portOf authority = none := by
  rw [portOf, if_neg (by simpa using h)]

/-- Where a host ends: at a colon or, if it starts with a bracket, with the other one. -/
inductive HostEnds : List Char → List Char → Prop
  | bracketed {inside : List Char} (free : Bracketless inside) (rest : List Char) :
    HostEnds ('[' :: (inside ++ [']'])) rest
  | plain {host rest : List Char} (first : host.head? ≠ some '[') (colonless : ':' ∉ host)
    (next : ∀ c ∈ rest.head?, c = ':') : HostEnds host rest

theorem HostEnds.hostOf_eq {authority host rest : List Char} (h : HostEnds host rest)
    (hlast : afterLast '@' authority = host ++ rest) : hostOf authority = host := by
  rw [hostOf, hlast]
  cases h with
  | @bracketed inside free =>
    have hinside := forall_mem_bne free.2
    simp only [List.cons_append, List.append_assoc, List.nil_append]
    rw [List.takeWhile_append_of_pos hinside, List.dropWhile_append_of_pos hinside]
    simp
  | plain first colonless next =>
    have hfirst : ∀ cs, host ++ rest = '[' :: cs → False := by
      intro cs heq
      cases host with
      | nil =>
        obtain rfl : rest = '[' :: cs := heq
        exact absurd (next '[' rfl) (by decide)
      | cons c host =>
        obtain ⟨rfl, -⟩ := List.cons.inj heq
        exact first rfl
    split
    · rename_i cs heq
      exact (hfirst cs heq).elim
    · rw [List.takeWhile_append_of_pos (forall_mem_bne colonless)]
      cases rest with
      | nil => rw [List.takeWhile_nil, List.append_nil]
      | cons c rest =>
        obtain rfl := next c rfl
        rw [List.takeWhile_cons_of_neg (by simp), List.append_nil]

/-- A bracket at the start of a host is closed, as no other is open before it. -/
theorem exists_hostEnds {user text : List Char} (h : Paired (user ++ text)) :
    ∃ host rest, text = host ++ rest ∧ HostEnds host rest := by
  cases text with
  | nil => exact ⟨[], [], rfl, .plain (by simp) (by simp) (by simp)⟩
  | cons c cs =>
    by_cases hc : c = '['
    · subst hc
      generalize hwhole : user ++ '[' :: cs = whole at h
      cases h with
      | absent free =>
        refine absurd ?_ free.1
        rw [← hwhole]
        exact List.mem_append_right _ List.mem_cons_self
      | @pair before inside after before_free inside_free after_free =>
        have hrest : '[' ∉ inside ++ ']' :: after := by
          intro hmem
          obtain hmem | hmem := List.mem_append.1 hmem
          · exact inside_free.1 hmem
          · exact after_free.1 ((List.mem_cons.1 hmem).resolve_left (by decide))
        -- the host starts with the bracket that is open in the pair
        obtain ⟨-, -, rfl⟩ := (List.append_cons_inj_of_notMem before_free.1 hrest).1 hwhole.symm
        refine ⟨'[' :: (inside ++ [']']), after, ?_, .bracketed inside_free after⟩
        simp
    · refine ⟨(c :: cs).takeWhile (· != ':'), (c :: cs).dropWhile (· != ':'),
        List.takeWhile_append_dropWhile.symm, .plain ?_ ?_ ?_⟩
      · intro hhead
        rw [List.head?_takeWhile, List.head?_cons] at hhead
        exact hc (Option.some.inj (Option.filter_eq_some_iff.1 hhead).1)
      · intro hmem
        simpa using List.mem_takeWhile_imp hmem
      · intro d hd
        simpa using Text.first_dropWhile (· != ':') (c :: cs) d hd

/-- The parts of an authority, in their order. The port is what follows the last colon after the
host. -/
structure Parts where
  user : List Char
  host : List Char
  gap : List Char
  port : List Char

namespace Parts

/-- An authority in its parts. The user information ends with the last at sign. -/
structure Divide (p : Parts) (authority : List Char) : Prop where
  eq : authority = p.user ++ (p.host ++ (p.gap ++ p.port))
  user : p.user = [] ∨ ∃ name, p.user = name ++ ['@']
  atless : '@' ∉ p.host ++ (p.gap ++ p.port)
  host : HostEnds p.host (p.gap ++ p.port)
  gap : p.port = [] ∧ ':' ∉ p.gap ∨ ∃ before, p.gap = before ++ [':']
  colonless : ':' ∉ p.port

variable {p : Parts} {authority : List Char}

theorem Divide.hostOf_eq (h : p.Divide authority) : hostOf authority = p.host := by
  refine h.host.hostOf_eq ?_
  rw [h.eq]
  exact afterLast_eq h.atless h.user

theorem Divide.portOf_eq_none (h : p.Divide authority) (hport : p.port = []) (hgap : ':' ∉ p.gap) :
    portOf authority = none := by
  rw [h.eq, hport, List.append_nil]
  -- the last colon, if there is one, has the second bracket or an at sign after it
  have hhost := h.host
  generalize p.host = host at hhost
  cases hhost with
  | @bracketed inside free =>
    have heq : p.user ++ ('[' :: (inside ++ [']']) ++ p.gap) =
        p.user ++ '[' :: inside ++ ']' :: p.gap := by simp
    rw [heq]
    exact portOf_append_cons hgap rfl (by decide) (by decide) _
  | plain _ colonless _ =>
    have hback : ':' ∉ host ++ p.gap := fun hmem => (List.mem_append.1 hmem).elim colonless hgap
    obtain huser | ⟨name, huser⟩ := h.user
    · rw [huser, List.nil_append]
      exact portOf_of_not_mem hback
    · rw [huser, List.append_assoc, List.singleton_append]
      exact portOf_append_cons hback rfl (by decide) (by decide) name

/-- The port is the number that its text names. -/
theorem Divide.portOf_eq_some_iff (h : p.Divide authority) {n : Nat} :
    portOf authority = some n ↔ IsPort p.port n := by
  obtain ⟨hport, hgap⟩ | ⟨before, hgap⟩ := h.gap
  · rw [h.portOf_eq_none hport hgap, hport]
    simp [not_isPort_nil]
  · have heq : authority = (p.user ++ (p.host ++ (before ++ [':']))) ++ p.port := by
      rw [h.eq, hgap]
      simp
    have hmem : authority.contains ':' = true := by
      rw [heq]
      simp
    have hlast : afterLast ':' authority = p.port := by
      rw [heq]
      refine afterLast_eq h.colonless (.inr ⟨p.user ++ (p.host ++ before), ?_⟩)
      simp
    rw [portOf, if_pos hmem, hlast, numeral?_eq_some_iff_isPort]

section Read
variable {u : Uri} {text : String} (h : p.Divide text.toList) (hu : u.authority = some text)
include h hu

theorem Divide.host_eq : u.host = some (String.ofList p.host) := by
  rw [Uri.host, hu, Option.map_some, h.hostOf_eq]

theorem Divide.port_eq_some_iff {n : Nat} : u.port = some n ↔ IsPort p.port n := by
  rw [Uri.port, hu, Option.bind_some, h.portOf_eq_some_iff]

end Read

theorem exists_gap (rest : List Char) : ∃ gap port, rest = gap ++ port ∧
    (port = [] ∧ ':' ∉ gap ∨ ∃ before, gap = before ++ [':']) ∧ ':' ∉ port := by
  obtain ⟨front, hrest, hcolon, rfl | hfront⟩ := exists_append_afterLast ':' rest
  · rw [List.nil_append] at hrest
    rw [← hrest] at hcolon
    exact ⟨rest, [], (List.append_nil rest).symm, .inl ⟨rfl, hcolon⟩, List.not_mem_nil⟩
  · exact ⟨front, afterLast ':' rest, hrest, .inr hfront, hcolon⟩

theorem exists_divide (h : Paired authority) : ∃ p : Parts, p.Divide authority := by
  obtain ⟨user, hauthority, hat, huser⟩ := exists_append_afterLast '@' authority
  rw [hauthority] at h
  obtain ⟨host, rest, hsplit, hhost⟩ := exists_hostEnds h
  obtain ⟨gap, port, rfl, hgap, hcolon⟩ := exists_gap rest
  rw [hsplit] at hauthority hat
  exact ⟨⟨user, host, gap, port⟩, hauthority, huser, hat, hhost, hgap, hcolon⟩

end Parts
end HttpWire.Uri
