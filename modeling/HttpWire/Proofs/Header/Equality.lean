import HttpWire.Header.Cursor
import HttpWire.Proofs.Header.Pairs

/-! When header maps are equal. The values under each name count, and nothing else, so pairs of
different names may be mixed in any way before a map is made from them. -/
namespace HttpWire.HeaderMap
open HttpWire.Field
variable {a b m m' : HeaderMap}

/-- What equality looks at. -/
def keyed (m : HeaderMap) : List (String × List String) := m.entries.map fun e => (e.key, e.values)

/-- The values that come under a name, whatever its casing. -/
def valuesUnder (name : String) (pairs : List (String × String)) : List String :=
  (pairs.filter fun pair => Text.sameLetters pair.1 name).map Prod.snd

theorem beq_iff_keyed_eq : (a == b) = true ↔ a.keyed = b.keyed := by
  have hzip : (a == b) = true ↔
      List.Forall₂ (fun x y : Entry => (x.key, x.values) = (y.key, y.values)) a.entries b.entries := by
    rw [List.forall₂_iff_zip]
    show (_ && _) = true ↔ _
    simp only [Bool.and_eq_true, beq_iff_eq, List.all_eq_true, Prod.forall, Prod.mk.injEq, size]
  rw [hzip, keyed, keyed, ← List.forall₂_eq_eq_eq, List.forall₂_map_left_iff,
    List.forall₂_map_right_iff]

theorem pairwise_keyed (m : HeaderMap) : m.keyed.Pairwise fun x y => x.1 < y.1 :=
  List.pairwise_map.2 m.sorted

/-- A key is there with its values exactly if a name gives them. -/
theorem mem_keyed_iff {key : String} {values : List String} : (key, values) ∈ m.keyed ↔
    values ≠ [] ∧ ∃ name, Text.lower name = key ∧ m.getAll name = values := by
  rw [keyed, List.mem_map]
  constructor
  · rintro ⟨e, he, heq⟩
    obtain ⟨rfl, rfl⟩ := Prod.mk.inj heq
    have hfound : m.entry? e.name = some e := entry?_eq_some_iff.2 ⟨he, rfl⟩
    refine ⟨(m.valid e he).values_ne_nil, e.name, rfl, ?_⟩
    rw [getAll, hfound]
    rfl
  · rintro ⟨hne, name, rfl, rfl⟩
    cases hfound : m.entry? name with
    | none => exact absurd (by rw [getAll, hfound]; rfl) hne
    | some e =>
      obtain ⟨he, hkey⟩ := entry?_eq_some_iff.1 hfound
      refine ⟨e, he, Prod.ext hkey ?_⟩
      rw [getAll, hfound]
      rfl

theorem getAll_eq_keyed (m : HeaderMap) (name : String) : m.getAll name =
    ((m.keyed.find? (·.1 == Text.lower name)).map Prod.snd).getD [] := by
  rw [getAll, HeaderMap.entry?, keyed, List.find?_map, Option.map_map]
  rfl

theorem keyed_eq_iff : a.keyed = b.keyed ↔ ∀ name, a.getAll name = b.getAll name := by
  constructor
  · intro h name
    rw [getAll_eq_keyed, getAll_eq_keyed, h]
  · intro h
    -- both lists increase strictly, so their members tell them
    let r := fun x y : String × List String => x.1 < y.1
    have hirrefl : Std.Irrefl r := ⟨fun x => String.lt_irrefl x.1⟩
    have hantisymm : Std.Antisymm r := ⟨fun _ _ hlt hgt => absurd hgt (String.lt_asymm hlt)⟩
    refine List.Pairwise.eq_of_mem_iff (r := r) a.pairwise_keyed b.pairwise_keyed ?_
    rintro ⟨key, values⟩
    rw [mem_keyed_iff, mem_keyed_iff]
    simp only [h]

theorem beq_iff_forall_getAll_eq :
    (a == b) = true ↔ ∀ name, a.getAll name = b.getAll name :=
  beq_iff_keyed_eq.trans keyed_eq_iff

theorem getAll_append {name value : String} (h : m.append name value = .ok m') (n : String) :
    m'.getAll n = m.getAll n ++ valuesUnder n [(name, value)] := by
  rw [getAll, entry?_append h, getAll, valuesUnder, List.filter_singleton, Text.sameLetters]
  by_cases hname : Text.lower name = Text.lower n
  · rw [if_pos hname, beq_iff_eq.2 hname]
    cases m.entry? n <;> rfl
  · rw [if_neg hname, beq_false_of_ne hname]
    exact (List.append_nil _).symm

theorem valuesUnder_append (name : String) (p q : List (String × String)) :
    valuesUnder name (p ++ q) = valuesUnder name p ++ valuesUnder name q := by
  rw [valuesUnder, List.filter_append, List.map_append]
  rfl

theorem getAll_appendAll {pairs : List (String × String)} (h : m.appendAll pairs = .ok m')
    (name : String) : m'.getAll name = m.getAll name ++ valuesUnder name pairs := by
  induction pairs generalizing m with
  | nil =>
    obtain rfl : m = m' := Except.ok.inj h
    exact (List.append_nil _).symm
  | cons pair pairs ih =>
    cases happend : m.append pair.1 pair.2 with
    | error p =>
      rw [appendAll, List.foldlM_cons] at h
      dsimp only at h
      rw [happend] at h
      simp [bind, Except.bind] at h
    | ok u =>
      rw [appendAll_cons happend] at h
      rw [ih h, getAll_append happend, List.append_assoc, ← valuesUnder_append,
        List.singleton_append]

theorem exists_appendAll (m : HeaderMap) {pairs : List (String × String)}
    (h : ∀ pair ∈ pairs, problem? pair.1 pair.2 = none) : ∃ m', m.appendAll pairs = .ok m' := by
  induction pairs generalizing m with
  | nil => exact ⟨m, rfl⟩
  | cons pair pairs ih =>
    obtain ⟨hpair, hpairs⟩ := List.forall_mem_cons.1 h
    obtain ⟨u, hu⟩ := m.exists_append hpair
    obtain ⟨m', hm'⟩ := ih u hpairs
    exact ⟨m', (appendAll_cons hu pairs).trans hm'⟩

/-- Pairs that are all valid make a map. It gives the values that came under each name. -/
theorem exists_ofPairs {pairs : List (String × String)}
    (h : ∀ pair ∈ pairs, problem? pair.1 pair.2 = none) :
    ∃ m, ofPairs pairs = .ok m ∧ ∀ name, m.getAll name = valuesUnder name pairs := by
  obtain ⟨m, hm⟩ := empty.exists_appendAll h
  exact ⟨m, hm, getAll_appendAll hm⟩

/-- Two pairs of different names may change places. -/
theorem valuesUnder_swap {x y : String × String} (h : Text.sameLetters x.1 y.1 = false)
    (before after : List (String × String)) (name : String) :
    valuesUnder name (before ++ x :: y :: after) = valuesUnder name (before ++ y :: x :: after) := by
  have hswap : valuesUnder name [x, y] = valuesUnder name [y, x] := by
    simp only [Text.sameLetters, beq_eq_false_iff_ne] at h
    by_cases hx : Text.lower x.1 = Text.lower name
    · have hy : Text.lower y.1 ≠ Text.lower name := fun hy => h (hx.trans hy.symm)
      simp [valuesUnder, Text.sameLetters, hx, hy]
    · simp [valuesUnder, Text.sameLetters, hx, List.filter_cons]
  have hcut (u v : String × String) : before ++ u :: v :: after = before ++ ([u, v] ++ after) := rfl
  rw [hcut, hcut, valuesUnder_append, valuesUnder_append, hswap, ← valuesUnder_append,
    ← valuesUnder_append]

/-- Maps are equal exactly if they give the same values under each name, and maps made from valid
pairs exactly if the same values came under each name, in whatever way the names were mixed. Either
walk through a map gives the pairs that make it again, with the casing of each name. -/
theorem beq_extensional {p q : List (String × String)}
    (hp : ∀ pair ∈ p, isToken pair.1 = true ∧ isValue pair.2 = true)
    (hq : ∀ pair ∈ q, isToken pair.1 = true ∧ isValue pair.2 = true) (a b m : HeaderMap) :
    ((a == b) = true ↔ ∀ name, a.getAll name = b.getAll name) ∧
    (∃ mp mq, ofPairs p = .ok mp ∧ ofPairs q = .ok mq ∧
      ((mp == mq) = true ↔ ∀ name, valuesUnder name p = valuesUnder name q)) ∧
    (∀ before x y after, p = before ++ x :: y :: after → Text.sameLetters x.1 y.1 = false →
      ∃ mp ms, ofPairs p = .ok mp ∧ ofPairs (before ++ y :: x :: after) = .ok ms ∧
        (mp == ms) = true) ∧
    ofPairs m.cursor.toList = .ok m ∧ ofPairs m.pairs = .ok m := by
  have hpairs : ofPairs m.pairs = .ok m := m.ofPairs_pairs
  have hwalk : m.cursor.toList = m.pairs := m.cursor.toList_eq
  obtain ⟨mp, hmp, hvalues⟩ := exists_ofPairs fun pair h => problem?_eq_none_iff.2 (hp pair h)
  obtain ⟨mq, hmq, hvalues'⟩ := exists_ofPairs fun pair h => problem?_eq_none_iff.2 (hq pair h)
  refine ⟨beq_iff_forall_getAll_eq, ⟨mp, mq, hmp, hmq, ?_⟩, ?_, hwalk ▸ hpairs, hpairs⟩
  · rw [beq_iff_forall_getAll_eq]
    simp only [hvalues, hvalues']
  · rintro before x y after rfl hnames
    have hperm : (before ++ y :: x :: after).Perm (before ++ x :: y :: after) :=
      (List.Perm.swap x y after).append_left before
    obtain ⟨ms, hms, hvalues''⟩ := exists_ofPairs fun pair h =>
      problem?_eq_none_iff.2 (hp pair (hperm.mem_iff.1 h))
    refine ⟨mp, ms, hmp, hms, beq_iff_forall_getAll_eq.2 fun name => ?_⟩
    rw [hvalues, hvalues'', valuesUnder_swap hnames]

/-- Two values of one name in two casings, and a pair that moves past one of them. -/
theorem beq_extensional_of_mixed_pairs :
    let p := [("Via", "1"), ("host", "h"), ("VIA", "2")]
    let q := [("via", "1"), ("Via", "2"), ("Host", "h")]
    (∀ pair ∈ p, isToken pair.1 = true ∧ isValue pair.2 = true) ∧
    (∀ pair ∈ q, isToken pair.1 = true ∧ isValue pair.2 = true) ∧
    ∃ mp mq, ofPairs p = .ok mp ∧ ofPairs q = .ok mq ∧ (mp == mq) = true := by
  intro p q
  have hp : ∀ pair ∈ p, isToken pair.1 = true ∧ isValue pair.2 = true := by decide +kernel
  have hq : ∀ pair ∈ q, isToken pair.1 = true ∧ isValue pair.2 = true := by decide +kernel
  obtain ⟨-, ⟨mp, mq, hmp, hmq, hiff⟩, -⟩ := beq_extensional hp hq empty empty empty
  refine ⟨hp, hq, mp, mq, hmp, hmq, hiff.2 fun name => ?_⟩
  have hvia : Text.lower "Via" = "via" ∧ Text.lower "VIA" = "via" ∧ Text.lower "via" = "via" := by
    decide +kernel
  have hhost : Text.lower "host" = "host" ∧ Text.lower "Host" = "host" := by decide +kernel
  by_cases hname : Text.lower name = "via"
  · simp [p, q, valuesUnder, Text.sameLetters, hvia, hhost, hname]
  · have hvia' : ("via" == Text.lower name) = false := beq_false_of_ne (Ne.symm hname)
    simp only [p, q, valuesUnder, Text.sameLetters, hvia, hhost, hvia', List.filter_cons,
      List.filter_nil, Bool.false_eq_true, if_false]
    split <;> rfl

end HttpWire.HeaderMap
