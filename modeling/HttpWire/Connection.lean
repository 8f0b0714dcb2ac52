import HttpWire.Error
import HttpWire.Octets

/-! Connections: what the operations on one come to. All connections to one far side share its
state, so an operation takes the state of the far side to another. -/
namespace HttpWire

/-- The sum of a number for each member. Supplies are counted so. -/
def sumOf {α : Type} (f : α → Nat) : List α → Nat
  | [] => 0
  | a :: as => f a + sumOf f as

section SumOf
variable {α : Type} (f : α → Nat)

@[simp] theorem sumOf_nil : sumOf f [] = 0 := rfl

@[simp] theorem sumOf_cons (a : α) (as : List α) : sumOf f (a :: as) = f a + sumOf f as := rfl

@[simp]
theorem sumOf_append (as bs : List α) : sumOf f (as ++ bs) = sumOf f as + sumOf f bs := by
  induction as with
  | nil => rw [List.nil_append, sumOf_nil, Nat.zero_add]
  | cons a as ih => rw [List.cons_append, sumOf_cons, sumOf_cons, ih, Nat.add_assoc]

end SumOf

/-- How far an operation has come when it is asked. -/
inductive Progress (α : Type) where
  /-- It has ended with this result. -/
  | ready (result : α)
  /-- It has not ended, and is worth asking again at once. -/
  | again
  /-- It has not ended, and will not before something else happens. -/
  | stalled
deriving DecidableEq, Repr

/-- A far side with state `σ`. The supply bounds how often it can put a reader off with something
other than the end of its input, or a writer with nothing at all. No read, write or flush adds to
it. -/
class Connection (σ : Type) where
  /-- One read, of at most the given number of octets. No octets mean the end of the input. -/
  read : Nat → σ → Progress (Except IoError Octets) × σ
  /-- One write. It may accept only the first of the octets offered, and says how many. -/
  write : Octets → σ → Progress (Except IoError Nat) × σ
  flush : σ → Except IoError Unit × σ
  shutdown : σ → Except IoError Unit × σ
  /-- A connection is given up, whether it was shut down or not. -/
  release : σ → σ
  supply : σ → Nat
  supply_read (n : Nat) (s : σ) : supply (read n s).2 ≤ supply s
  supply_write (b : Octets) (s : σ) : supply (write b s).2 ≤ supply s
  supply_flush (s : σ) : supply (flush s).2 ≤ supply s
  supply_read_again {n : Nat} {s s' : σ} : read n s = (.again, s') → supply s' < supply s
  supply_read_interrupted {n : Nat} {s s' : σ} :
    read n s = (.ready (.error .interrupted), s') → supply s' < supply s
  supply_read_octets {n : Nat} {s s' : σ} {b : Octets} (hb : b ≠ []) :
    read n s = (.ready (.ok b), s') → supply s' < supply s
  supply_write_again {b : Octets} {s s' : σ} : write b s = (.again, s') → supply s' < supply s

namespace Connection
variable {σ : Type} [Connection σ]

/-- One read, asked for until it has ended. There is no result if it stalls. -/
def awaitRead (n : Nat) (s : σ) : Option (Except IoError Octets) × σ :=
  match h : read n s with
  | (.ready r, s') => (some r, s')
  | (.stalled, s') => (none, s')
  | (.again, s') =>
    have := supply_read_again h
    awaitRead n s'
termination_by supply s

def awaitWrite (b : Octets) (s : σ) : Option (Except IoError Nat) × σ :=
  match h : write b s with
  | (.ready r, s') => (some r, s')
  | (.stalled, s') => (none, s')
  | (.again, s') =>
    have := supply_write_again h
    awaitWrite b s'
termination_by supply s

end Connection
end HttpWire
