import HttpWire.Proofs.Header.Characters
import HttpWire.Uri

/-! The host of a URI is a valid value, and its target has no blanks in it. -/
namespace HttpWire.Uri
open HttpWire.Field

theorem bounds_of_isAuthorityChar {c : Char} (h : isAuthorityChar c = true) :
    0x20 < c.toNat ∧ c.toNat < 0x7F := by
  simp only [isAuthorityChar, Char.isAlphanum, Char.isAlpha, Char.isUpper, Char.isLower,
    Char.isDigit, Bool.or_eq_true, Bool.and_eq_true, decide_eq_true_eq, beq_iff_eq,
    UInt32.le_iff_toNat_le, ge_iff_le] at h
  simp only [Char.reduceVal, UInt32.reduceToNat, show c.val.toNat = c.toNat from rfl] at h
  omega

theorem mem_of_mem_afterLast {c d : Char} {cs : List Char} (h : d ∈ afterLast c cs) : d ∈ cs := by
  rw [afterLast, List.mem_reverse] at h
  exact List.mem_reverse.1 ((List.takeWhile_prefix _).mem h)

theorem mem_of_mem_hostOf {d : Char} {cs : List Char} (h : d ∈ hostOf cs) : d ∈ cs := by
  unfold hostOf at h
  split at h
  · rename_i host hlast
    refine mem_of_mem_afterLast (c := '@') ?_
    rw [hlast]
    refine (List.mem_cons.1 h).elim (fun heq => heq ▸ List.mem_cons_self) fun hin => ?_
    refine List.mem_cons_of_mem _ ?_
    cases List.mem_append.1 hin with
    | inl hin => exact (List.takeWhile_prefix _).mem hin
    | inr hin => exact (List.dropWhile_suffix _).mem (List.mem_of_mem_take hin)
  · exact mem_of_mem_afterLast ((List.takeWhile_prefix _).mem h)

theorem isValue_host {u : Uri} {h : String} (hh : u.host = some h) : isValue h = true := by
  obtain ⟨a, ha, rfl⟩ := Option.map_eq_some_iff.1 hh
  rw [isValue_ofList, List.all_eq_true]
  intro c hc
  have hchars := List.all_eq_true.1 (u.authority_chars a ha) c (mem_of_mem_hostOf hc)
  obtain ⟨hlo, hhi⟩ := bounds_of_isAuthorityChar hchars
  exact isValueChar_of_lt hlo hhi

theorem isValue_hostAndPort (u : Uri) : isValue u.hostAndPort = true := by
  have hhost : isValue (u.host.getD "") = true := by
    cases hh : u.host with
    | none => rfl
    | some h => exact isValue_host hh
  have hport : isValue ((u.port.map fun n => ":" ++ toString n).getD "") = true := by
    cases u.port with
    | none => rfl
    | some n =>
      show isValue (":" ++ toString n) = true
      rw [isValue_append, isValue_toString, Bool.and_true]
      decide +kernel
  rw [hostAndPort, isValue_append, hhost, hport, Bool.and_true]

theorem lt_of_isPathChar {c : Char} (h : isPathChar c = true) : 0x20 < c.toNat := by
  simp only [isPathChar, Bool.or_eq_true, Bool.and_eq_true, decide_eq_true_eq, beq_iff_eq] at h
  omega

theorem lt_of_isQueryChar {c : Char} (h : isQueryChar c = true) : 0x20 < c.toNat := by
  simp only [isQueryChar, Bool.or_eq_true, Bool.and_eq_true, decide_eq_true_eq, beq_iff_eq] at h
  omega

/-- Nothing in a request target is a blank or a control character. -/
theorem lt_of_mem_requestTarget (u : Uri) : ∀ c ∈ u.requestTarget.toList, 0x20 < c.toNat := by
  intro c hc
  rw [requestTarget, String.toList_append] at hc
  cases List.mem_append.1 hc with
  | inl hpath =>
    split at hpath
    · obtain rfl : c = '/' := by simpa using hpath
      decide
    · exact lt_of_isPathChar (List.all_eq_true.1 u.path_chars c hpath)
  | inr hquery =>
    cases hq : u.query with
    | none => simp [hq] at hquery
    | some q =>
      rw [hq, Option.map_some, Option.getD_some, String.toList_append] at hquery
      cases List.mem_append.1 hquery with
      | inl hmark =>
        obtain rfl : c = '?' := by simpa using hmark
        decide
      | inr hin => exact lt_of_isQueryChar (List.all_eq_true.1 (u.query_chars q hq) c hin)

end HttpWire.Uri
