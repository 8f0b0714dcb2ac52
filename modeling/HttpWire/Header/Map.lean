import HttpWire.Header.Field
import HttpWire.Text

/-! Header maps: names without regard to case, in the order of the lower-cased name, each with
one or more values. -/
namespace HttpWire
namespace HeaderMap

/-- A name as it was first written, and its values in the order they came. -/
structure Entry where
  name : String
  values : List String
deriving DecidableEq, Repr

namespace Entry

/-- The name by which an entry is found. -/
def key (e : Entry) : String := Text.lower e.name

structure Valid (e : Entry) : Prop where
  isToken : Field.isToken e.name = true
  values_ne_nil : e.values ≠ []
  isValue : ∀ v ∈ e.values, Field.isValue v = true

def pairs (e : Entry) : List (String × String) := e.values.map (e.name, ·)

end Entry

/-- Put `e` at its place, or join it to the entry of the same key. -/
def place (join : Entry → Entry → Entry) (e : Entry) : List Entry → List Entry
  | [] => [e]
  | x :: xs =>
    if e.key < x.key then e :: x :: xs
    else if x.key < e.key then x :: place join e xs
    else join x e :: xs

def replaceEntry (_ new : Entry) : Entry := new

/-- The old entry keeps its name and gains the new values. -/
def extendEntry (old new : Entry) : Entry := ⟨old.name, old.values ++ new.values⟩

theorem key_replaceEntry (old new : Entry) : (replaceEntry old new).key = new.key := rfl

theorem key_extendEntry (old new : Entry) : (extendEntry old new).key = old.key := rfl

private theorem key_eq_of_not_lt {a b : Entry} (h₁ : ¬ a.key < b.key) (h₂ : ¬ b.key < a.key) :
    b.key = a.key := String.le_antisymm (String.not_lt.1 h₁) (String.not_lt.1 h₂)

theorem mem_place {join : Entry → Entry → Entry} {e y : Entry} {xs : List Entry}
    (h : y ∈ place join e xs) :
    y = e ∨ y ∈ xs ∨ ∃ x ∈ xs, x.key = e.key ∧ y = join x e := by
  induction xs with
  | nil => simpa [place] using h
  | cons x xs ih =>
    simp only [place] at h
    split at h
    · rcases List.mem_cons.1 h with h | h
      · exact .inl h
      · exact .inr (.inl h)
    · rename_i h₁
      split at h
      · rcases List.mem_cons.1 h with rfl | h
        · simp
        · rcases ih h with h | h | ⟨z, hz, hk, hy⟩
          · exact .inl h
          · exact .inr (.inl (List.mem_cons_of_mem _ h))
          · exact .inr (.inr ⟨z, List.mem_cons_of_mem _ hz, hk, hy⟩)
      · rename_i h₂
        rcases List.mem_cons.1 h with h | h
        · exact .inr (.inr ⟨x, by simp, key_eq_of_not_lt h₁ h₂, h⟩)
        · exact .inr (.inl (List.mem_cons_of_mem _ h))

theorem pairwise_place {join : Entry → Entry → Entry} {e : Entry}
    (hjoin : ∀ x, x.key = e.key → (join x e).key = e.key) {xs : List Entry}
    (h : xs.Pairwise (·.key < ·.key)) : (place join e xs).Pairwise (·.key < ·.key) := by
  induction xs with
  | nil => simp [place]
  | cons x xs ih =>
    obtain ⟨hx, hxs⟩ := List.pairwise_cons.1 h
    simp only [place]
    split
    · rename_i h₁
      refine List.pairwise_cons.2 ⟨fun y hy => ?_, h⟩
      rcases List.mem_cons.1 hy with rfl | hy
      · exact h₁
      · exact String.lt_trans h₁ (hx y hy)
    · rename_i h₁
      split
      · rename_i h₂
        refine List.pairwise_cons.2 ⟨fun y hy => ?_, ih hxs⟩
        rcases mem_place hy with rfl | hy | ⟨z, hz, hk, rfl⟩
        · exact h₂
        · exact hx y hy
        · rw [hjoin z hk]; exact h₂
      · rename_i h₂
        have hk := key_eq_of_not_lt h₁ h₂
        refine List.pairwise_cons.2 ⟨fun y hy => ?_, hxs⟩
        rw [hjoin x hk, ← hk]
        exact hx y hy

end HeaderMap

/-- Entries in strictly increasing order of their keys, each of them valid. -/
structure HeaderMap where
  entries : List HeaderMap.Entry
  sorted : entries.Pairwise (·.key < ·.key)
  valid : ∀ e ∈ entries, e.Valid

namespace HeaderMap

def empty : HeaderMap := ⟨[], .nil, by simp⟩

instance : Inhabited HeaderMap := ⟨empty⟩

private theorem valid_place {join : Entry → Entry → Entry} {e : Entry} (he : e.Valid)
    (hjoin : ∀ x : Entry, x.Valid → (join x e).Valid) {xs : List Entry}
    (h : ∀ x ∈ xs, x.Valid) : ∀ y ∈ place join e xs, y.Valid := by
  intro y hy
  rcases mem_place hy with rfl | hy | ⟨x, hx, _, rfl⟩
  · exact he
  · exact h y hy
  · exact hjoin x (h x hx)

private theorem valid_single {name value : String} (h : Field.problem? name value = none) :
    (⟨name, [value]⟩ : Entry).Valid := by
  obtain ⟨hn, hv⟩ := Field.problem?_eq_none_iff.1 h
  exact ⟨hn, by simp, by simpa using hv⟩

private theorem valid_extendEntry {old new : Entry} (ho : old.Valid) (hn : new.Valid) :
    (extendEntry old new).Valid := by
  refine ⟨ho.isToken, by simp [extendEntry, ho.values_ne_nil], fun v hv => ?_⟩
  rcases List.mem_append.1 hv with hv | hv
  · exact ho.isValue v hv
  · exact hn.isValue v hv

/-- Set `name` to the one value `value`. The new casing of the name replaces the old. -/
def insert (m : HeaderMap) (name value : String) : Except Field.Problem HeaderMap :=
  match h : Field.problem? name value with
  | some p => .error p
  | none => .ok {
      entries := place replaceEntry ⟨name, [value]⟩ m.entries
      sorted := pairwise_place (fun x _ => key_replaceEntry x _) m.sorted
      valid := valid_place (valid_single h) (fun _ _ => valid_single h) m.valid }

/-- Add `value` after the values of `name`. The old casing of the name stays. -/
def append (m : HeaderMap) (name value : String) : Except Field.Problem HeaderMap :=
  match h : Field.problem? name value with
  | some p => .error p
  | none => .ok {
      entries := place extendEntry ⟨name, [value]⟩ m.entries
      sorted := pairwise_place (fun x hk => (key_extendEntry x _).trans hk) m.sorted
      valid := valid_place (valid_single h) (fun _ hx => valid_extendEntry hx (valid_single h))
        m.valid }

def erase (m : HeaderMap) (name : String) : HeaderMap where
  entries := m.entries.filter (·.key != Text.lower name)
  sorted := m.sorted.filter _
  valid := fun e he => m.valid e (List.mem_filter.1 he).1

/-- The entry of `name`, whatever its casing. -/
def entry? (m : HeaderMap) (name : String) : Option Entry :=
  m.entries.find? (·.key == Text.lower name)

def getAll (m : HeaderMap) (name : String) : List String :=
  ((m.entry? name).map Entry.values).getD []

/-- The value of `name`, which must not have several. -/
def get (m : HeaderMap) (name : String) : Except Field.Repeated (Option String) :=
  match m.entry? name with
  | none => .ok none
  | some e => if e.values.length > 1 then .error ⟨e.name⟩ else .ok e.values.head?

def contains (m : HeaderMap) (name : String) : Bool := (m.entry? name).isSome

/-- Remove `name` and give its values, if it had any. -/
def remove (m : HeaderMap) (name : String) : Option (List String) × HeaderMap :=
  ((m.entry? name).map Entry.values, m.erase name)

/-- The number of distinct names. -/
def size (m : HeaderMap) : Nat := m.entries.length

/-- Every name with every one of its values, in order. -/
def pairs (m : HeaderMap) : List (String × String) := m.entries.flatMap Entry.pairs

def ofPairs (pairs : List (String × String)) : Except Field.Problem HeaderMap :=
  pairs.foldlM (fun m (name, value) => m.append name value) empty

/-- Names and values agree, entry by entry. The casing of the names does not count. -/
instance : BEq HeaderMap where
  beq a b := a.size == b.size &&
    (a.entries.zip b.entries).all fun (x, y) => x.key == y.key && x.values == y.values

def describe (m : HeaderMap) : String :=
  Text.dictionary (m.entries.map fun e =>
    (Text.quoted e.name, Text.listed (e.values.map Text.quoted)))

end HeaderMap
end HttpWire
