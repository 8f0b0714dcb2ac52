import HttpWire.Charset
import HttpWire.Proofs.Octets.Texts
import HttpWire.Proofs.Text.Utf16

/-! Decoding is the inverse of encoding, in every character set: octets come to a text exactly if
they are an encoding of it. -/
namespace HttpWire.Charset
open Text.Utf16

/-- The octets that stand for a text. Without a mark UTF-16 is big-endian, and what looks like a
mark is one. -/
inductive Encodes : Charset → String → Octets → Prop
  | utf8 (s : String) : Encodes utf8 s (s.toList.flatMap String.utf8EncodeChar)
  | latin1 {s : String} (narrow : ∀ c ∈ s.toList, c.toNat ≤ 0xFF) :
    Encodes latin1 s (s.toList.map Char.toUInt8)
  | ascii {s : String} (narrow : ∀ c ∈ s.toList, c.toNat ≤ 0x7F) :
    Encodes ascii s (s.toList.map Char.toUInt8)
  | littleMark (s : String) : Encodes utf16 s (0xFF :: 0xFE :: encodeLittleEndian s)
  | bigMark (s : String) : Encodes utf16 s (0xFE :: 0xFF :: encodeBigEndian s)
  | noMark {s : String} (little : ¬ [0xFF, 0xFE] <+: encodeBigEndian s)
    (big : ¬ [0xFE, 0xFF] <+: encodeBigEndian s) : Encodes utf16 s (encodeBigEndian s)
  | utf16be (s : String) : Encodes utf16be s (encodeBigEndian s)
  | utf16le (s : String) : Encodes utf16le s (encodeLittleEndian s)

theorem fromUTF8?_eq_some_iff {b : Octets} {s : String} :
    String.fromUTF8? ⟨b.toArray⟩ = some s ↔ b = s.toList.flatMap String.utf8EncodeChar := by
  have hoctets : s.toList.flatMap String.utf8EncodeChar = s.toByteArray.data.toList := by
    rw [← Octets.ofText_ofList, String.ofList_toList]
    rfl
  rw [hoctets]
  constructor
  · intro h
    unfold String.fromUTF8? at h
    split at h
    · obtain rfl := Option.some.inj h
      rfl
    · simp at h
  · rintro rfl
    unfold String.fromUTF8?
    exact dif_pos s.isValidUTF8

/-- A text with one octet for each character is told by its octets. -/
theorem latin1_eq_iff {b : Octets} {s : String} : Octets.latin1 b = s ↔
    (∀ c ∈ s.toList, c.toNat ≤ 0xFF) ∧ b = s.toList.map Char.toUInt8 := by
  constructor
  · rintro rfl
    rw [Octets.toList_latin1]
    constructor
    · intro c hc
      obtain ⟨o, -, rfl⟩ := List.mem_map.1 hc
      exact Nat.le_of_lt_succ o.toNat_lt
    · rw [List.map_map]
      exact (List.map_id'' Octets.toUInt8_ofUInt8 b).symm
  · rintro ⟨hs, rfl⟩
    have hback : s.toList.map (Char.ofUInt8 ∘ Char.toUInt8) = s.toList.map id :=
      List.map_congr_left fun c hc => Octets.ofUInt8_toUInt8 (Nat.lt_succ_of_le (hs c hc))
    rw [Octets.latin1, List.map_map, hback, List.map_id, String.ofList_toList]

theorem ascii_decode?_eq_some_iff {b : Octets} {s : String} : ascii.decode? b = some s ↔
    (∀ c ∈ s.toList, c.toNat ≤ 0x7F) ∧ b = s.toList.map Char.toUInt8 := by
  simp only [decode?, Option.ite_none_right_eq_some, Option.some.injEq, latin1_eq_iff,
    List.all_eq_true, decide_eq_true_eq]
  constructor
  · rintro ⟨hascii, hs, rfl⟩
    refine ⟨fun c hc => ?_, rfl⟩
    have hlt : c.toNat % 256 < 128 := hascii c.toUInt8 (List.mem_map_of_mem hc)
    have := hs c hc
    omega
  · rintro ⟨hs, rfl⟩
    refine ⟨fun o ho => ?_, fun c hc => Nat.le_trans (hs c hc) (by decide), rfl⟩
    obtain ⟨c, hc, rfl⟩ := List.mem_map.1 ho
    have := hs c hc
    show c.toNat % 256 < 128
    omega

theorem encodes_utf16_iff {b : Octets} {s : String} : Encodes utf16 s b ↔
    b = 0xFF :: 0xFE :: encodeLittleEndian s ∨ b = 0xFE :: 0xFF :: encodeBigEndian s ∨
      (¬ [0xFF, 0xFE] <+: b ∧ ¬ [0xFE, 0xFF] <+: b) ∧ b = encodeBigEndian s := by
  constructor
  · intro h
    cases h with
    | littleMark => exact .inl rfl
    | bigMark => exact .inr (.inl rfl)
    | noMark little big => exact .inr (.inr ⟨⟨little, big⟩, rfl⟩)
  · rintro (rfl | rfl | ⟨⟨little, big⟩, rfl⟩)
    · exact .littleMark s
    · exact .bigMark s
    · exact .noMark little big

/-- The first two octets choose the order of the others. -/
theorem utf16_decode?_eq_some_iff {b : Octets} {s : String} :
    utf16.decode? b = some s ↔ Encodes utf16 s b := by
  rw [encodes_utf16_iff]
  unfold decode?
  dsimp only
  split
  · rw [decodeLittleEndian?_eq_some_iff]
    simp
  · rw [decodeBigEndian?_eq_some_iff]
    simp
  · rename_i hlittle hbig
    have hlittle : ¬ [0xFF, 0xFE] <+: b := by
      rintro ⟨rest, rfl⟩
      exact hlittle rest rfl
    have hbig : ¬ [0xFE, 0xFF] <+: b := by
      rintro ⟨rest, rfl⟩
      exact hbig rest rfl
    rw [decodeBigEndian?_eq_some_iff]
    constructor
    · exact fun h => .inr (.inr ⟨⟨hlittle, hbig⟩, h⟩)
    · rintro (rfl | rfl | ⟨-, h⟩)
      · exact absurd ⟨_, rfl⟩ hlittle
      · exact absurd ⟨_, rfl⟩ hbig
      · exact h

/-- Octets come to a text exactly if they are an encoding of it. -/
theorem decode?_eq_some_iff_encodes (c : Charset) (b : Octets) (s : String) :
    c.decode? b = some s ↔ Encodes c s b := by
  cases c with
  | utf8 =>
    rw [decode?, fromUTF8?_eq_some_iff]
    constructor
    · rintro rfl
      exact .utf8 s
    · rintro ⟨⟩
      rfl
  | latin1 =>
    rw [decode?, Option.some.injEq, latin1_eq_iff]
    constructor
    · rintro ⟨hs, rfl⟩
      exact .latin1 hs
    · rintro ⟨⟩
      exact ⟨‹_›, rfl⟩
  | ascii =>
    rw [ascii_decode?_eq_some_iff]
    constructor
    · rintro ⟨hs, rfl⟩
      exact .ascii hs
    · rintro ⟨⟩
      exact ⟨‹_›, rfl⟩
  | utf16 => exact utf16_decode?_eq_some_iff
  | utf16be =>
    rw [decode?, decodeBigEndian?_eq_some_iff]
    constructor
    · rintro rfl
      exact .utf16be s
    · rintro ⟨⟩
      rfl
  | utf16le =>
    rw [decode?, decodeLittleEndian?_eq_some_iff]
    constructor
    · rintro rfl
      exact .utf16le s
    · rintro ⟨⟩
      rfl

end HttpWire.Charset
