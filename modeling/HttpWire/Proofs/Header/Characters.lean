import HttpWire.Header.Field
import HttpWire.Proofs.Octets.Texts
import HttpWire.Text

/-! The characters of tokens and values, and the octets that they are sent as. -/
namespace HttpWire

namespace Field

theorem isValue_append (a b : String) : isValue (a ++ b) = (isValue a && isValue b) := by
  rw [isValue, String.toList_append, List.all_append]
  rfl

theorem isValue_ofList {cs : List Char} : isValue (String.ofList cs) = cs.all isValueChar := by
  rw [isValue, String.toList_ofList]

theorem isValueChar_of_lt {c : Char} (hlo : 0x20 < c.toNat) (hhi : c.toNat < 0x7F) :
    isValueChar c = true := by
  simp only [isValueChar, Bool.or_eq_true, Bool.and_eq_true, decide_eq_true_eq, bne_iff_ne]
  omega

theorem bounds_of_isDigit {c : Char} (h : c.isDigit = true) : 0x30 ≤ c.toNat ∧ c.toNat ≤ 0x39 := by
  simpa [Char.isDigit, UInt32.le_iff_toNat_le] using h

theorem isValue_toString (n : Nat) : isValue (toString n) = true := by
  have hrepr : toString n = String.ofList (Nat.toDigits 10 n) := Nat.repr_eq_ofList_toDigits
  rw [hrepr, isValue_ofList, List.all_eq_true]
  intro c hc
  have hbounds := bounds_of_isDigit (Nat.isDigit_of_mem_toDigits (by decide) (by decide) hc)
  exact isValueChar_of_lt (by omega) (by omega)

theorem bounds_of_isTokenChar {c : Char} (h : isTokenChar c = true) :
    0x20 < c.toNat ∧ c.toNat < 0x7F := by
  simp only [isTokenChar, Bool.and_eq_true, decide_eq_true_eq] at h
  omega

theorem ne_of_isTokenChar {c d : Char} (h : isTokenChar c = true) (hd : isTokenChar d = false) :
    c ≠ d := by
  rintro rfl
  rw [h] at hd
  simp at hd

theorem isSpaceOrTab_of_isTokenChar {c : Char} (h : isTokenChar c = true) :
    Text.isSpaceOrTab c = false := by
  rw [Text.isSpaceOrTab, beq_false_of_ne (ne_of_isTokenChar h (by decide)),
    beq_false_of_ne (ne_of_isTokenChar h (by decide))]
  rfl

/-- A value character is one octet, and no carriage return or line feed. -/
theorem bounds_of_isValueChar {c : Char} (h : isValueChar c = true) :
    c.toNat < 256 ∧ c.toNat ≠ 13 ∧ c.toNat ≠ 10 := by
  simp only [isValueChar, Bool.or_eq_true, Bool.and_eq_true, decide_eq_true_eq, beq_iff_eq] at h
  obtain (rfl | rfl) | ⟨⟨hlo, hhi⟩, -⟩ := h
  · decide
  · decide
  · omega

theorem isValueChar_of_isTokenChar {c : Char} (h : isTokenChar c = true) :
    isValueChar c = true := by
  obtain ⟨hlo, hhi⟩ := bounds_of_isTokenChar h
  exact isValueChar_of_lt hlo hhi

theorem isValue_of_isToken {s : String} (h : isToken s = true) : isValue s = true := by
  rw [isToken, Bool.and_eq_true] at h
  refine List.all_eq_true.2 fun c hc => ?_
  exact isValueChar_of_isTokenChar (List.all_eq_true.1 h.2 c hc)

end Field

namespace Octets

theorem toNat_ofLatin1 {s : String} {o : UInt8} (h : o ∈ ofLatin1 s)
    (hs : Field.isValue s = true) : ∃ c ∈ s.toList, o.toNat = c.toNat := by
  obtain ⟨c, hc, rfl⟩ := List.mem_map.1 h
  have hlt := (Field.bounds_of_isValueChar (List.all_eq_true.1 hs c hc)).1
  refine ⟨c, hc, ?_⟩
  rw [if_pos hlt]
  show c.toNat % 256 = c.toNat
  exact Nat.mod_eq_of_lt hlt

/-- The octets of a valid value stand for it again. -/
theorem latin1_ofLatin1 {s : String} (hs : Field.isValue s = true) : latin1 (ofLatin1 s) = s := by
  have hchar (c : Char) (hc : c ∈ s.toList) :
      Char.ofUInt8 (if c.toNat < 256 then c.toUInt8 else 63) = c := by
    have hlt := (Field.bounds_of_isValueChar (List.all_eq_true.1 hs c hc)).1
    rw [if_pos hlt, ofUInt8_toUInt8 hlt]
  have hmap := (List.map_congr_left hchar).trans (List.map_id' s.toList)
  rw [latin1, ofLatin1, List.map_map]
  exact (congrArg String.ofList hmap).trans String.ofList_toList

theorem ofLatin1_append (a b : String) : ofLatin1 (a ++ b) = ofLatin1 a ++ ofLatin1 b := by
  rw [ofLatin1, String.toList_append, List.map_append]
  rfl

/-- A valid value has no line ends in it. -/
theorem clean_ofLatin1 {s : String} (hs : Field.isValue s = true) :
    13 ∉ ofLatin1 s ∧ 10 ∉ ofLatin1 s := by
  constructor
  · intro h
    obtain ⟨c, hc, hn⟩ := toNat_ofLatin1 h hs
    exact (Field.bounds_of_isValueChar (List.all_eq_true.1 hs c hc)).2.1 hn.symm
  · intro h
    obtain ⟨c, hc, hn⟩ := toNat_ofLatin1 h hs
    exact (Field.bounds_of_isValueChar (List.all_eq_true.1 hs c hc)).2.2 hn.symm

end Octets
end HttpWire
