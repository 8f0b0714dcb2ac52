import HttpWire.Octets
import Mathlib

/-! The octets of texts, and which octets they cannot be. -/
namespace HttpWire.Octets

theorem ofText_append (a b : String) : ofText (a ++ b) = ofText a ++ ofText b := by
  simp only [ofText, String.toUTF8_eq_toByteArray, String.toByteArray_append,
    ByteArray.toList_data_append]

theorem ofText_ofList (cs : List Char) :
    ofText (String.ofList cs) = cs.flatMap String.utf8EncodeChar := by
  rw [ofText, String.toUTF8_eq_toByteArray, String.toByteArray_ofList, List.utf8Encode,
    List.toList_data_toByteArray]

/-- An octet of a character past the space is past the space. -/
theorem lt_of_mem_utf8EncodeChar {c : Char} (hc : 0x20 < c.toNat) {o : UInt8}
    (ho : o ∈ String.utf8EncodeChar c) : 0x20 < o.toNat := by
  unfold String.utf8EncodeChar at ho
  simp only [show c.val.toNat = c.toNat from rfl] at ho
  split at ho
  · obtain rfl := List.mem_singleton.1 ho
    rw [UInt8.toNat_ofNat']
    omega
  -- every octet of a longer sequence has its highest bit set
  split at ho
  · simp only [List.mem_cons, List.not_mem_nil, or_false] at ho
    obtain rfl | rfl := ho <;> rw [UInt8.toNat_ofNat'] <;> omega
  split at ho
  · simp only [List.mem_cons, List.not_mem_nil, or_false] at ho
    obtain rfl | rfl | rfl := ho <;> rw [UInt8.toNat_ofNat'] <;> omega
  · simp only [List.mem_cons, List.not_mem_nil, or_false] at ho
    obtain rfl | rfl | rfl | rfl := ho <;> rw [UInt8.toNat_ofNat'] <;> omega

theorem lt_of_mem_ofText {s : String} (hs : ∀ c ∈ s.toList, 0x20 < c.toNat) {o : UInt8}
    (ho : o ∈ ofText s) : 0x20 < o.toNat := by
  rw [← String.ofList_toList (s := s), ofText_ofList] at ho
  obtain ⟨c, hc, ho⟩ := List.mem_flatMap.1 ho
  exact lt_of_mem_utf8EncodeChar (hs c hc) ho

theorem not_mem_ofText {s : String} (hs : ∀ c ∈ s.toList, 0x20 < c.toNat) {o : UInt8}
    (ho : o.toNat ≤ 0x20) : o ∉ ofText s := by
  intro h
  have := lt_of_mem_ofText hs h
  omega

theorem toNat_ofUInt8 (o : UInt8) : (Char.ofUInt8 o).toNat = o.toNat := rfl

/-- A character with an octet of its own. -/
theorem ofUInt8_toUInt8 {c : Char} (h : c.toNat < 256) : Char.ofUInt8 c.toUInt8 = c := by
  refine Char.toNat_inj.1 ?_
  show c.toNat % 256 = c.toNat
  exact Nat.mod_eq_of_lt h

theorem toUInt8_ofUInt8 (o : UInt8) : (Char.ofUInt8 o).toUInt8 = o :=
  UInt8.toNat_inj.1 (Nat.mod_eq_of_lt o.toNat_lt)

theorem ofUInt8_injective : Function.Injective Char.ofUInt8 := by
  intro a b h
  have hnat : a.toNat = b.toNat := congrArg Char.toNat h
  exact UInt8.toNat_inj.1 hnat

@[simp]
theorem toList_latin1 (b : Octets) : (latin1 b).toList = b.map Char.ofUInt8 :=
  String.toList_ofList

theorem latin1_injective : Function.Injective latin1 := by
  intro a b h
  have hlist := congrArg String.toList h
  rw [toList_latin1, toList_latin1] at hlist
  exact ofUInt8_injective.list_map hlist

theorem latin1_eq_empty_iff {b : Octets} : latin1 b = "" ↔ b = [] :=
  latin1_injective.eq_iff (b := [])

end HttpWire.Octets
