import HttpWire.Text.Utf16
import Mathlib

/-! UTF-16 is read back from what is written, in both byte orders, and nothing else can be read. -/
namespace HttpWire.Text.Utf16

section Units

/-- No surrogate is a character. -/
theorem toNat_valid (c : Char) : c.toNat < 0xD800 ∨ 0xDFFF < c.toNat ∧ c.toNat < 0x110000 :=
  c.valid

theorem toNat_ofNat {n : Nat} (hn : n < 0x110000) (hhigh : isHigh n = false)
    (hlow : isLow n = false) : (Char.ofNat n).toNat = n := by
  simp only [isHigh, isLow, Bool.and_eq_false_iff, decide_eq_false_iff_not] at hhigh hlow
  rw [Char.toNat_ofNat, if_pos]
  show n < 0xD800 ∨ 0xDFFF < n ∧ n < 0x110000
  omega

theorem not_surrogate (c : Char) : isHigh c.toNat = false ∧ isLow c.toNat = false := by
  have hc := toNat_valid c
  simp only [isHigh, isLow, Bool.and_eq_false_iff, decide_eq_false_iff_not]
  omega

/-- A unit that is no surrogate is the only one of its character. -/
theorem units_ofNat {u : Nat} (hu : u < 0x10000) (hhigh : isHigh u = false)
    (hlow : isLow u = false) : units (Char.ofNat u) = [u] := by
  have hnat := toNat_ofNat (by omega) hhigh hlow
  rw [units, hnat, if_pos hu]

theorem units_combine {high low : Nat} (hhigh : isHigh high = true) (hlow : isLow low = true) :
    units (Char.ofNat (combine high low)) = [high, low] := by
  simp only [isHigh, isLow, Bool.and_eq_true, decide_eq_true_eq] at hhigh hlow
  have hcombine : combine high low = 0x10000 + (high - 0xD800) * 0x400 + (low - 0xDC00) := by
    unfold combine
    rfl
  generalize combine high low = n at hcombine
  have hnat : (Char.ofNat n).toNat = n := by
    apply toNat_ofNat
    · omega
    · simp only [isHigh, Bool.and_eq_false_iff, decide_eq_false_iff_not]
      omega
    · simp only [isLow, Bool.and_eq_false_iff, decide_eq_false_iff_not]
      omega
  have hfirst : 0xD800 + (n - 0x10000) / 0x400 = high := by omega
  have hsecond : 0xDC00 + (n - 0x10000) % 0x400 = low := by omega
  rw [units, hnat, if_neg (by omega), hfirst, hsecond]

theorem lt_of_mem_units {c : Char} {u : Nat} (h : u ∈ units c) : u < 0x10000 := by
  have hc := toNat_valid c
  simp only [units] at h
  split at h
  · obtain rfl := List.mem_singleton.1 h
    assumption
  · simp only [List.mem_cons, List.not_mem_nil, or_false] at h
    omega

theorem exists_pair {c : Char} (hc : 0x10000 ≤ c.toNat) : ∃ high low, units c = [high, low] ∧
    isHigh high = true ∧ isLow low = true ∧ combine high low = c.toNat := by
  have hvalid := toNat_valid c
  refine ⟨_, _, if_neg (Nat.not_lt.2 hc), ?_, ?_, ?_⟩
  · simp only [isHigh, Bool.and_eq_true, decide_eq_true_eq]
    omega
  · simp only [isLow, Bool.and_eq_true, decide_eq_true_eq]
    omega
  · unfold combine
    omega

theorem ofUnits?_units_append (c : Char) (us : List Nat) :
    ofUnits? (units c ++ us) = (ofUnits? us).map (c :: ·) := by
  by_cases hc : c.toNat < 0x10000
  · obtain ⟨hhigh, hlow⟩ := not_surrogate c
    have hunits : units c = [c.toNat] := if_pos hc
    rw [hunits, List.singleton_append, ofUnits?.eq_def]
    simp only [hhigh, hlow, Bool.false_eq_true, if_false, Char.ofNat_toNat]
  · obtain ⟨high, low, hunits, hhigh, hlow, hcombine⟩ := exists_pair (Nat.not_lt.1 hc)
    rw [hunits, List.cons_append, List.singleton_append, ofUnits?.eq_def]
    simp only [hhigh, hlow, if_true, hcombine, Char.ofNat_toNat]

theorem ofUnits?_flatMap_units (cs : List Char) : ofUnits? (cs.flatMap units) = some cs := by
  induction cs with
  | nil => rfl
  | cons c cs ih => rw [List.flatMap_cons, ofUnits?_units_append, ih, Option.map_some]

theorem flatMap_units_of_ofUnits? {us : List Nat} {cs : List Char} (hus : ∀ u ∈ us, u < 0x10000)
    (h : ofUnits? us = some cs) : cs.flatMap units = us := by
  fun_induction ofUnits? us generalizing cs with
  | case1 =>
    obtain rfl := Option.some.inj h
    rfl
  | case2 => simp at h
  | case3 u hhigh v vs hlow ih =>
    obtain ⟨cs, hcs, rfl⟩ := Option.map_eq_some_iff.1 h
    have hvs : ∀ u ∈ vs, u < 0x10000 := fun u hu =>
      hus u (List.mem_cons_of_mem _ (List.mem_cons_of_mem _ hu))
    rw [List.flatMap_cons, units_combine hhigh hlow, ih hvs hcs]
    rfl
  | case4 => simp at h
  | case5 => simp at h
  | case6 u us hhigh hlow ih =>
    obtain ⟨cs, hcs, rfl⟩ := Option.map_eq_some_iff.1 h
    obtain ⟨hu, hus⟩ := List.forall_mem_cons.1 hus
    rw [List.flatMap_cons, units_ofNat hu (by simpa using hhigh) (by simpa using hlow), ih hus hcs]
    rfl

end Units

section Octets

/-- The octets of a unit, the more significant one first. -/
def bigPair (u : Nat) : List UInt8 := [(u / 256).toUInt8, (u % 256).toUInt8]

/-- Each pair of octets the other way round. -/
def swapPairs : List UInt8 → List UInt8
  | a :: b :: rest => b :: a :: swapPairs rest
  | rest => rest

theorem swapPairs_swapPairs (b : List UInt8) : swapPairs (swapPairs b) = b := by
  fun_induction swapPairs b with
  | case1 a b rest ih => rw [swapPairs, ih]
  | case2 rest hrest =>
    rw [swapPairs]
    exact hrest

theorem littleEndian?_eq (b : List UInt8) : littleEndian? b = bigEndian? (swapPairs b) := by
  fun_induction littleEndian? b with
  | case1 => rfl
  | case2 => rfl
  | case3 a b rest ih => rw [swapPairs, bigEndian?, ih]

theorem swapPairs_encodeBigEndian (s : String) :
    swapPairs (encodeBigEndian s) = encodeLittleEndian s := by
  rw [encodeBigEndian, encodeLittleEndian, ← List.flatMap_assoc, ← List.flatMap_assoc]
  induction s.toList.flatMap units with
  | nil => rfl
  | cons u us ih =>
    rw [List.flatMap_cons, List.flatMap_cons, ← ih]
    rfl

theorem bigEndian?_flatMap_bigPair {us : List Nat} (hus : ∀ u ∈ us, u < 0x10000) :
    bigEndian? (us.flatMap bigPair) = some us := by
  induction us with
  | nil => rfl
  | cons u us ih =>
    obtain ⟨hu, hus⟩ := List.forall_mem_cons.1 hus
    have hfirst : (u / 256).toUInt8.toNat = u / 256 := Nat.mod_eq_of_lt (by omega)
    have hsecond : (u % 256).toUInt8.toNat = u % 256 := Nat.mod_eq_of_lt (by omega)
    rw [List.flatMap_cons, bigPair, List.cons_append, List.singleton_append, bigEndian?, ih hus,
      hfirst, hsecond, Nat.div_add_mod']
    rfl

/-- Octets are in pairs if they are units, and each unit has 16 bits. -/
theorem flatMap_bigPair_of_bigEndian? {b : List UInt8} {us : List Nat}
    (h : bigEndian? b = some us) : us.flatMap bigPair = b ∧ ∀ u ∈ us, u < 0x10000 := by
  fun_induction bigEndian? b generalizing us with
  | case1 =>
    obtain rfl := Option.some.inj h
    exact ⟨rfl, List.forall_mem_nil _⟩
  | case2 => simp at h
  | case3 a b rest ih =>
    obtain ⟨us, hus, rfl⟩ := Option.map_eq_some_iff.1 h
    obtain ⟨hrest, hlt⟩ := ih hus
    have ha : a.toNat < 256 := a.toNat_lt
    have hb : b.toNat < 256 := b.toNat_lt
    have hfirst : (a.toNat * 256 + b.toNat) / 256 = a.toNat := by omega
    have hsecond : (a.toNat * 256 + b.toNat) % 256 = b.toNat := by omega
    refine ⟨?_, List.forall_mem_cons.2 ⟨by omega, hlt⟩⟩
    rw [List.flatMap_cons, hrest, bigPair, hfirst, hsecond]
    simp

theorem encodeBigEndian_eq (s : String) :
    encodeBigEndian s = (s.toList.flatMap units).flatMap bigPair := by
  rw [List.flatMap_assoc]
  rfl

/-- Big-endian octets are read as a text exactly if they are what it is written as. -/
theorem decodeBigEndian?_eq_some_iff {b : List UInt8} {s : String} :
    decodeBigEndian? b = some s ↔ b = encodeBigEndian s := by
  rw [decodeBigEndian?, encodeBigEndian_eq]
  constructor
  · intro h
    obtain ⟨cs, hcs, rfl⟩ := Option.map_eq_some_iff.1 h
    obtain ⟨us, hus, hchars⟩ := Option.bind_eq_some_iff.1 hcs
    obtain ⟨hb, hlt⟩ := flatMap_bigPair_of_bigEndian? hus
    rw [String.toList_ofList, flatMap_units_of_ofUnits? hlt hchars, hb]
  · rintro rfl
    have hlt : ∀ u ∈ s.toList.flatMap units, u < 0x10000 := by
      intro u hu
      obtain ⟨c, -, hc⟩ := List.mem_flatMap.1 hu
      exact lt_of_mem_units hc
    rw [bigEndian?_flatMap_bigPair hlt, Option.bind_some, ofUnits?_flatMap_units, Option.map_some,
      String.ofList_toList]

theorem decodeLittleEndian?_eq_some_iff {b : List UInt8} {s : String} :
    decodeLittleEndian? b = some s ↔ b = encodeLittleEndian s := by
  have hswap : decodeLittleEndian? b = decodeBigEndian? (swapPairs b) := by
    rw [decodeLittleEndian?, littleEndian?_eq, decodeBigEndian?]
  rw [hswap, decodeBigEndian?_eq_some_iff, ← swapPairs_encodeBigEndian]
  constructor
  · intro h
    rw [← h, swapPairs_swapPairs]
  · rintro rfl
    exact swapPairs_swapPairs _

end Octets

end HttpWire.Text.Utf16
