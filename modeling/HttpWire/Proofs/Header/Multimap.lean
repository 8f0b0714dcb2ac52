import HttpWire.Header.Cursor
import HttpWire.Proofs.Header.Fields

/-! A header map after any run of calls. The calls alone tell what it holds under each name, in
which casing the name is kept, and in which order everything comes. -/
namespace HttpWire.HeaderMap
open HttpWire.Field

/-- A call that may change a header map. -/
inductive Call
  | insert (name value : String)
  | append (name value : String)
  | remove (name : String)

/-- What a call answers with. -/
inductive Reply
  | accepted
  | refused (problem : Problem)
  | removed (values : Option (List String))

/-- The answer to a call, and the map after it. -/
def apply (m : HeaderMap) : Call → Reply × HeaderMap
  | .insert name value =>
    match m.insert name value with
    | .ok m' => (.accepted, m')
    | .error problem => (.refused problem, m)
  | .append name value =>
    match m.append name value with
    | .ok m' => (.accepted, m')
    | .error problem => (.refused problem, m)
  | .remove name => (.removed (m.remove name).1, (m.remove name).2)

/-- The map after these calls, from the empty one on. -/
def run (calls : List Call) : HeaderMap := calls.foldl (fun m call => (m.apply call).2) empty

/-- The pair is let in under this name, whatever its casing. -/
def Enters (name : String) (pair : String × String) : Prop :=
  Text.sameLetters pair.1 name = true ∧ isToken pair.1 = true ∧ isValue pair.2 = true

instance (name : String) (pair : String × String) : Decidable (Enters name pair) :=
  inferInstanceAs (Decidable (_ ∧ _ ∧ _))

/-- The values let in under a name since it was last inserted or removed, from the calls so far,
latest first. -/
def valuesOf (name : String) : List Call → List String
  | [] => []
  | .insert n v :: past => if Enters name (n, v) then [v] else valuesOf name past
  | .append n v :: past =>
    if Enters name (n, v) then valuesOf name past ++ [v] else valuesOf name past
  | .remove n :: past => if Text.sameLetters n name then [] else valuesOf name past

/-- The casing of a name that is there: that of its last insertion, or of an append since then that
did not find it. -/
def casingOf? (name : String) : List Call → Option String
  | [] => none
  | .insert n v :: past => if Enters name (n, v) then some n else casingOf? name past
  | .append n v :: past =>
    if Enters name (n, v) ∧ valuesOf name past = [] then some n else casingOf? name past
  | .remove n :: past => if Text.sameLetters n name then none else casingOf? name past

/-- All that can be asked of a header map, told by the calls that led to it, latest first. -/
structure Observed (m : HeaderMap) (past : List Call) : Prop where
  getAll_eq : ∀ name, m.getAll name = valuesOf name past
  contains_iff : ∀ name, m.contains name = true ↔ valuesOf name past ≠ []
  get_eq : ∀ name, m.get name =
    match casingOf? name past, valuesOf name past with
    | some casing, _ :: _ :: _ => .error ⟨casing⟩
    | _, values => .ok values.head?
  remove_eq : ∀ name, (m.apply (.remove name)).1 =
    .removed (if valuesOf name past = [] then none else some (valuesOf name past))
  size_eq : m.size = {key | ∃ name, Text.lower name = key ∧ valuesOf name past ≠ []}.ncard
  /-- Both ways to walk through the map give each name that is there, in its casing and in the order
  of the keys, with its values. -/
  pairs_eq : ∃ names : List String,
    names.Pairwise (fun a b => Text.lower a < Text.lower b) ∧
    (∀ casing, casing ∈ names ↔ ∃ name, casingOf? name past = some casing) ∧
    m.pairs = names.flatMap (fun name => (valuesOf name past).map (name, ·)) ∧
    m.cursor.toList = m.pairs
  isField : ∀ pair ∈ m.pairs, isToken pair.1 = true ∧ isValue pair.2 = true
  insert_accepted_iff : ∀ name value, (m.apply (.insert name value)).1 = .accepted ↔
    isToken name = true ∧ isValue value = true
  append_accepted_iff : ∀ name value, (m.apply (.append name value)).1 = .accepted ↔
    isToken name = true ∧ isValue value = true
  /-- A call that is refused changes nothing. -/
  refused : ∀ call problem, (m.apply call).1 = .refused problem → (m.apply call).2 = m

variable {m m' : HeaderMap} {past : List Call}

theorem valuesOf_eq_nil_iff (name : String) (past : List Call) :
    valuesOf name past = [] ↔ casingOf? name past = none := by
  induction past with
  | nil => exact iff_of_true rfl rfl
  | cons call past ih =>
    cases call with
    | insert n v =>
      rw [valuesOf, casingOf?]
      split
      · simp
      · exact ih
    | append n v =>
      rw [valuesOf, casingOf?]
      by_cases henters : Enters name (n, v)
      · by_cases hvalues : valuesOf name past = []
        · simp [henters, hvalues]
        · simp [henters, hvalues, ← ih]
      · simpa [henters] using ih
    | remove n =>
      rw [valuesOf, casingOf?]
      split
      · simp
      · exact ih

/-- Each name has the entry that the calls tell. -/
def Reflects (m : HeaderMap) (past : List Call) : Prop :=
  ∀ name, m.entry? name = (casingOf? name past).map (⟨·, valuesOf name past⟩)

theorem enters_iff {name n v : String} (h : problem? n v = none) :
    Enters name (n, v) ↔ Text.lower n = Text.lower name := by
  obtain ⟨hname, hvalue⟩ := problem?_eq_none_iff.1 h
  simp [Enters, hname, hvalue, Text.sameLetters]

theorem not_enters {name n v : String} {p : Problem} (h : problem? n v = some p) :
    ¬ Enters name (n, v) := by
  rintro ⟨-, hname, hvalue⟩
  rw [problem?_eq_none_iff.2 ⟨hname, hvalue⟩] at h
  simp at h

theorem Reflects.insert {name value : String} (h : m.Reflects past) :
    (m.apply (.insert name value)).2.Reflects (.insert name value :: past) := by
  intro n
  rw [valuesOf, casingOf?, apply]
  cases hproblem : problem? name value with
  | some p =>
    rw [insert_of_problem hproblem, if_neg (not_enters hproblem), if_neg (not_enters hproblem)]
    exact h n
  | none =>
    obtain ⟨m', hm'⟩ := exists_insert (m := m) hproblem
    have hentry := entry?_insert hm' n
    rw [hm']
    dsimp only
    rw [hentry]
    by_cases hname : Text.lower name = Text.lower n
    · have henters := (enters_iff hproblem).2 hname
      rw [if_pos hname, if_pos henters, if_pos henters]
      rfl
    · have henters := mt (enters_iff hproblem).1 hname
      rw [if_neg hname, if_neg henters, if_neg henters]
      exact h n

theorem Reflects.append {name value : String} (h : m.Reflects past) :
    (m.apply (.append name value)).2.Reflects (.append name value :: past) := by
  intro n
  rw [valuesOf, casingOf?, apply]
  cases hproblem : problem? name value with
  | some p =>
    have henters : ¬ Enters n (name, value) := not_enters hproblem
    rw [append_of_problem hproblem, if_neg henters, if_neg fun hboth => henters hboth.1]
    exact h n
  | none =>
    obtain ⟨m', hm'⟩ := m.exists_append hproblem
    have hentry := entry?_append hm' n
    rw [hm']
    dsimp only
    rw [hentry, h n]
    by_cases hname : Text.lower name = Text.lower n
    · have henters := (enters_iff hproblem).2 hname
      rw [if_pos hname, if_pos henters]
      -- the name keeps its casing exactly if there is a value of it
      cases hcasing : casingOf? n past with
      | none =>
        have hvalues := (valuesOf_eq_nil_iff n past).2 hcasing
        rw [if_pos ⟨henters, hvalues⟩, hvalues]
        rfl
      | some casing =>
        have hvalues : valuesOf n past ≠ [] := by
          rw [Ne, valuesOf_eq_nil_iff, hcasing]
          simp
        rw [if_neg fun hboth => hvalues hboth.2]
        rfl
    · have henters := mt (enters_iff hproblem).1 hname
      rw [if_neg hname, if_neg henters, if_neg fun hboth => henters hboth.1]

theorem Reflects.remove {name : String} (h : m.Reflects past) :
    (m.apply (.remove name)).2.Reflects (.remove name :: past) := by
  intro n
  have herase := m.entry?_erase name n
  rw [valuesOf, casingOf?]
  show HeaderMap.entry? (m.erase name) n = _
  rw [herase, Text.sameLetters]
  by_cases hname : Text.lower name = Text.lower n
  · simp [hname]
  · simpa [hname] using h n

theorem Reflects.apply (h : m.Reflects past) (call : Call) :
    (m.apply call).2.Reflects (call :: past) := by
  cases call with
  | insert name value => exact h.insert
  | append name value => exact h.append
  | remove name => exact h.remove

theorem reflects_foldl (h : m.Reflects past) (calls : List Call) :
    (calls.foldl (fun m call => (m.apply call).2) m).Reflects (calls.reverse ++ past) := by
  induction calls generalizing m past with
  | nil => exact h
  | cons call calls ih =>
    rw [List.foldl_cons, List.reverse_cons, List.append_assoc]
    exact ih (h.apply call)

theorem reflects_run (calls : List Call) : (run calls).Reflects calls.reverse := by
  have hempty : empty.Reflects [] := fun name => rfl
  have hrun := reflects_foldl hempty calls
  rwa [List.append_nil] at hrun

namespace Reflects

theorem getAll_eq (h : m.Reflects past) (name : String) : m.getAll name = valuesOf name past := by
  rw [getAll, h name]
  cases hcasing : casingOf? name past with
  | none => exact ((valuesOf_eq_nil_iff name past).2 hcasing).symm
  | some casing => rfl

theorem isSome_entry?_iff (h : m.Reflects past) (name : String) :
    (m.entry? name).isSome = true ↔ valuesOf name past ≠ [] := by
  rw [h name, Option.isSome_map, Ne, valuesOf_eq_nil_iff, Option.isSome_iff_ne_none]

theorem get_eq (h : m.Reflects past) (name : String) : m.get name =
    match casingOf? name past, valuesOf name past with
    | some casing, _ :: _ :: _ => .error ⟨casing⟩
    | _, values => .ok values.head? := by
  have hnil := valuesOf_eq_nil_iff name past
  rw [get, h name]
  match hcasing : casingOf? name past, hvalues : valuesOf name past with
  | none, values =>
    rw [hcasing, hvalues] at hnil
    rw [hnil.2 rfl]
    rfl
  | some casing, [] =>
    rw [hcasing, hvalues] at hnil
    simp at hnil
  | some casing, [value] => rfl
  | some casing, _ :: _ :: _ => simp

theorem remove_eq (h : m.Reflects past) (name : String) : (m.apply (.remove name)).1 =
    .removed (if valuesOf name past = [] then none else some (valuesOf name past)) := by
  have hnil := valuesOf_eq_nil_iff name past
  rw [HeaderMap.apply, HeaderMap.remove, h name]
  cases hcasing : casingOf? name past with
  | none =>
    rw [if_pos (hnil.2 hcasing)]
    rfl
  | some casing =>
    have hvalues : valuesOf name past ≠ [] := by
      rw [Ne, hnil, hcasing]
      simp
    rw [if_neg hvalues]
    rfl

theorem size_eq (h : m.Reflects past) :
    m.size = {key | ∃ name, Text.lower name = key ∧ valuesOf name past ≠ []}.ncard := by
  have hkeys : {key | ∃ name, Text.lower name = key ∧ valuesOf name past ≠ []} =
      ((m.entries.map Entry.key).toFinset : Set String) := by
    ext key
    rw [List.coe_toFinset, Set.mem_ofPred_eq, Set.mem_ofPred_eq, List.mem_map]
    constructor
    · rintro ⟨name, rfl, hvalues⟩
      obtain ⟨e, he⟩ := Option.isSome_iff_exists.1 ((h.isSome_entry?_iff name).2 hvalues)
      exact ⟨e, entry?_eq_some_iff.1 he⟩
    · rintro ⟨e, he, rfl⟩
      have hfound : m.entry? e.name = some e := entry?_eq_some_iff.2 ⟨he, rfl⟩
      exact ⟨e.name, rfl, (h.isSome_entry?_iff e.name).1 (by rw [hfound]; rfl)⟩
  rw [hkeys, Set.ncard_coe_finset, List.toFinset_card_of_nodup m.nodup_keys, List.length_map, size]

/-- An entry keeps its name in the casing and with the values that the calls tell. -/
theorem of_mem_entries (h : m.Reflects past) {e : Entry} (he : e ∈ m.entries) :
    casingOf? e.name past = some e.name ∧ valuesOf e.name past = e.values := by
  have hfound : m.entry? e.name = some e := entry?_eq_some_iff.2 ⟨he, rfl⟩
  rw [h e.name, Option.map_eq_some_iff] at hfound
  obtain ⟨casing, hcasing, hentry⟩ := hfound
  have hname : casing = e.name := congrArg Entry.name hentry
  exact ⟨hname ▸ hcasing, congrArg Entry.values hentry⟩

theorem mem_names_iff (h : m.Reflects past) (casing : String) :
    casing ∈ m.entries.map Entry.name ↔ ∃ name, casingOf? name past = some casing := by
  rw [List.mem_map]
  constructor
  · rintro ⟨e, he, rfl⟩
    exact ⟨e.name, (h.of_mem_entries he).1⟩
  · rintro ⟨name, hcasing⟩
    have hfound : m.entry? name = some ⟨casing, valuesOf name past⟩ := by
      rw [h name, hcasing]
      rfl
    exact ⟨_, (entry?_eq_some_iff.1 hfound).1, rfl⟩

theorem pairs_eq (h : m.Reflects past) : m.pairs =
    (m.entries.map Entry.name).flatMap fun name => (valuesOf name past).map (name, ·) := by
  rw [pairs, List.flatMap_map]
  refine List.flatMap_congr fun e he => ?_
  rw [(h.of_mem_entries he).2]
  rfl

end Reflects

theorem toList_cursor (m : HeaderMap) : m.cursor.toList = m.pairs := m.cursor.toList_eq

theorem apply_of_refused {call : Call} {problem : Problem}
    (h : (m.apply call).1 = .refused problem) : (m.apply call).2 = m := by
  unfold apply at h ⊢
  split
  · split
    · rename_i hinsert
      simp [hinsert] at h
    · rfl
  · split
    · rename_i happend
      simp [happend] at h
    · rfl
  · simp at h

theorem insert_accepted_iff (m : HeaderMap) (name value : String) :
    (m.apply (.insert name value)).1 = .accepted ↔ isToken name = true ∧ isValue value = true := by
  rw [← problem?_eq_none_iff, apply]
  cases hproblem : problem? name value with
  | some p => simp [insert_of_problem hproblem]
  | none =>
    obtain ⟨m', hm'⟩ := exists_insert (m := m) hproblem
    simp [hm']

theorem append_accepted_iff (m : HeaderMap) (name value : String) :
    (m.apply (.append name value)).1 = .accepted ↔ isToken name = true ∧ isValue value = true := by
  rw [← problem?_eq_none_iff, apply]
  cases hproblem : problem? name value with
  | some p => simp [append_of_problem hproblem]
  | none =>
    obtain ⟨m', hm'⟩ := m.exists_append hproblem
    simp [hm']

/-- Whatever was done to a header map, and whatever was refused, it answers as the calls tell. -/
theorem run_observed (calls : List Call) : (run calls).Observed calls.reverse := by
  have hrun := reflects_run calls
  constructor
  · exact hrun.getAll_eq
  · exact hrun.isSome_entry?_iff
  · exact hrun.get_eq
  · exact hrun.remove_eq
  · exact hrun.size_eq
  · refine ⟨(run calls).entries.map Entry.name, ?_, hrun.mem_names_iff, hrun.pairs_eq,
      toList_cursor _⟩
    exact List.pairwise_map.2 (run calls).sorted
  · exact fun pair hpair => problem?_eq_none_iff.1 (problem?_of_mem_pairs hpair)
  · exact (run calls).insert_accepted_iff
  · exact (run calls).append_accepted_iff
  · exact fun call problem hrefused => apply_of_refused hrefused

end HttpWire.HeaderMap
