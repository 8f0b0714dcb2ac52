import HttpWire.Proofs.Header.Fields
import HttpWire.Proofs.Text.Trimmed

/-! Header maps from pairs. The pairs of a map, appended one after the other, give the map back. -/
namespace HttpWire.HeaderMap
open HttpWire.Field

theorem eq_of_entries_eq {m m' : HeaderMap} (h : m.entries = m'.entries) : m = m' := by
  cases m
  cases m'
  subst h
  rfl

theorem place_of_forall_lt {join : Entry → Entry → Entry} {e : Entry} {entries : List Entry}
    (h : ∀ x ∈ entries, x.key < e.key) : place join e entries = entries ++ [e] := by
  induction entries with
  | nil => rfl
  | cons x entries ih =>
    obtain ⟨hx, hentries⟩ := List.forall_mem_cons.1 h
    rw [place, if_neg (String.lt_asymm hx), if_pos hx, ih hentries]
    rfl

theorem place_of_key_eq {join : Entry → Entry → Entry} {e last : Entry} {entries : List Entry}
    (h : ∀ x ∈ entries, x.key < e.key) (hlast : last.key = e.key) :
    place join e (entries ++ [last]) = entries ++ [join last e] := by
  induction entries with
  | nil =>
    have hirrefl : ¬ e.key < e.key := String.lt_irrefl _
    rw [List.nil_append, place, hlast, if_neg hirrefl, if_neg hirrefl]
    rfl
  | cons x entries ih =>
    obtain ⟨hx, hentries⟩ := List.forall_mem_cons.1 h
    rw [List.cons_append, place, if_neg (String.lt_asymm hx), if_pos hx, ih hentries]
    rfl

/-- Append the pairs to `m`. -/
def appendAll (m : HeaderMap) (pairs : List (String × String)) : Except Problem HeaderMap :=
  pairs.foldlM (fun m (name, value) => m.append name value) m

theorem appendAll_cons {m m' : HeaderMap} {name value : String}
    (h : m.append name value = .ok m') (pairs : List (String × String)) :
    m.appendAll ((name, value) :: pairs) = m'.appendAll pairs := by
  rw [appendAll, List.foldlM_cons]
  dsimp only
  rw [h]
  rfl

theorem appendAll_append {m m' : HeaderMap} {pairs : List (String × String)}
    (h : m.appendAll pairs = .ok m') (more : List (String × String)) :
    m.appendAll (pairs ++ more) = m'.appendAll more := by
  rw [appendAll] at h
  rw [appendAll, List.foldlM_append, h]
  rfl

/-- More values of the last name. -/
theorem exists_appendAll_values {m : HeaderMap} {entries : List Entry} {e : Entry}
    (hm : m.entries = entries ++ [e]) (hlt : ∀ x ∈ entries, x.key < e.key)
    (hname : isToken e.name = true) {values : List String}
    (hvalues : ∀ v ∈ values, isValue v = true) :
    ∃ m', m.appendAll (values.map (e.name, ·)) = .ok m' ∧
      m'.entries = entries ++ [⟨e.name, e.values ++ values⟩] := by
  induction values generalizing m e with
  | nil =>
    refine ⟨m, rfl, ?_⟩
    rw [hm, List.append_nil]
  | cons value values ih =>
    obtain ⟨hvalue, hvalues⟩ := List.forall_mem_cons.1 hvalues
    obtain ⟨m₁, hm₁⟩ := m.exists_append (problem?_eq_none_iff.2 ⟨hname, hvalue⟩)
    have hentries : m₁.entries = entries ++ [⟨e.name, e.values ++ [value]⟩] := by
      rw [entries_append hm₁, hm]
      exact place_of_key_eq hlt rfl
    obtain ⟨m', hall, hm'⟩ := ih hentries hlt hname hvalues
    refine ⟨m', ?_, ?_⟩
    · rw [List.map_cons, appendAll_cons hm₁, hall]
    · rw [hm', List.append_assoc]
      rfl

/-- A name after all others, with its values. -/
theorem exists_appendAll_pairs {m : HeaderMap} {e : Entry} (hlt : ∀ x ∈ m.entries, x.key < e.key)
    (he : e.Valid) : ∃ m', m.appendAll e.pairs = .ok m' ∧ m'.entries = m.entries ++ [e] := by
  obtain ⟨name, values⟩ := e
  cases values with
  | nil => exact absurd rfl he.values_ne_nil
  | cons value values =>
    obtain ⟨hvalue, hvalues⟩ := List.forall_mem_cons.1 he.isValue
    obtain ⟨m₁, hm₁⟩ := m.exists_append (problem?_eq_none_iff.2 ⟨he.isToken, hvalue⟩)
    have hentries : m₁.entries = m.entries ++ [⟨name, [value]⟩] := by
      rw [entries_append hm₁]
      exact place_of_forall_lt hlt
    obtain ⟨m', hall, hm'⟩ := exists_appendAll_values hentries hlt he.isToken hvalues
    refine ⟨m', ?_, hm'⟩
    rw [Entry.pairs, List.map_cons, appendAll_cons hm₁, hall]

theorem exists_appendAll_flatMap_pairs {m : HeaderMap} {entries : List Entry}
    (hsorted : (m.entries ++ entries).Pairwise (·.key < ·.key)) (hvalid : ∀ e ∈ entries, e.Valid) :
    ∃ m', m.appendAll (entries.flatMap Entry.pairs) = .ok m' ∧
      m'.entries = m.entries ++ entries := by
  induction entries generalizing m with
  | nil => exact ⟨m, rfl, (List.append_nil _).symm⟩
  | cons e entries ih =>
    obtain ⟨he, hentries⟩ := List.forall_mem_cons.1 hvalid
    have hlt : ∀ x ∈ m.entries, x.key < e.key := by
      intro x hx
      exact (List.pairwise_append.1 hsorted).2.2 x hx e List.mem_cons_self
    obtain ⟨m₁, hall, hm₁⟩ := exists_appendAll_pairs hlt he
    have happend : m₁.entries ++ entries = m.entries ++ e :: entries := by
      rw [hm₁, List.append_assoc]
      rfl
    obtain ⟨m', hrest, hm'⟩ := ih (m := m₁) (by rwa [happend]) hentries
    refine ⟨m', ?_, hm'.trans happend⟩
    rw [List.flatMap_cons, appendAll_append hall, hrest]

theorem ofPairs_pairs (m : HeaderMap) : ofPairs m.pairs = .ok m := by
  obtain ⟨m', hall, hm'⟩ := exists_appendAll_flatMap_pairs (m := empty) m.sorted m.valid
  obtain rfl : m' = m := eq_of_entries_eq hm'
  exact hall

section Trimmed

/-- A value without the spaces and tabs at its ends. -/
def trimmedValue (value : String) : String :=
  String.ofList (Text.trim Text.isSpaceOrTab value.toList)

theorem isValue_trimmedValue {value : String} (h : isValue value = true) :
    isValue (trimmedValue value) = true := by
  have htrimmed := Text.trim_eq_iff.1 (rfl : Text.trim Text.isSpaceOrTab value.toList = _)
  rw [isValue, List.all_eq_true] at h
  rw [isValue, trimmedValue, String.toList_ofList, List.all_eq_true]
  exact fun c hc => h c (htrimmed.mem hc)

def Entry.trimmed (e : Entry) : Entry := ⟨e.name, e.values.map trimmedValue⟩

@[simp] theorem Entry.key_trimmed (e : Entry) : e.trimmed.key = e.key := rfl

theorem Entry.Valid.trimmed {e : Entry} (h : e.Valid) : e.trimmed.Valid := by
  refine ⟨h.isToken, fun hnil => h.values_ne_nil (List.map_eq_nil_iff.1 hnil), ?_⟩
  exact List.forall_mem_map.2 fun v hv => isValue_trimmedValue (h.isValue v hv)

theorem pairwise_trimmed {entries : List Entry} (h : entries.Pairwise (·.key < ·.key)) :
    (entries.map Entry.trimmed).Pairwise (·.key < ·.key) := by
  rw [List.pairwise_map]
  simpa only [Entry.key_trimmed] using h

/-- The map with each value trimmed. Every name keeps its values in their order. -/
def trimmed (m : HeaderMap) : HeaderMap where
  entries := m.entries.map Entry.trimmed
  sorted := pairwise_trimmed m.sorted
  valid := List.forall_mem_map.2 fun e he => (m.valid e he).trimmed

theorem pairs_trimmed (m : HeaderMap) :
    m.trimmed.pairs = m.pairs.map fun f => (f.1, trimmedValue f.2) := by
  rw [pairs, pairs, trimmed, List.flatMap_map, List.map_flatMap]
  refine List.flatMap_congr fun e _ => ?_
  rw [Entry.pairs, Entry.pairs, Entry.trimmed, List.map_map, List.map_map]
  rfl

end Trimmed

end HttpWire.HeaderMap
