import HttpWire.Octets

/-! Octets that arrive in pieces. Adding a piece takes as long as the piece is, however much is
there already. A buffer stands for `toOctets`, and every operation is the one on that list. -/
namespace HttpWire

/-- Octets in two parts. -/
structure Buffer where
  /-- The first octets, in order. -/
  front : Octets
  /-- The octets after them, the latest first. -/
  back : Octets
  frontSize : Nat
  backSize : Nat
  length_front : front.length = frontSize
  length_back : back.length = backSize

namespace Buffer

def ofOctets (b : Octets) : Buffer := ⟨b, [], b.length, 0, rfl, rfl⟩

def empty : Buffer := ofOctets []

def toOctets (b : Buffer) : Octets :=
  if b.back = [] then b.front else b.front ++ b.back.reverse

def size (b : Buffer) : Nat := b.frontSize + b.backSize

def append (b : Buffer) (piece : Octets) : Buffer :=
  { b with
    back := piece.reverse ++ b.back
    backSize := piece.length + b.backSize
    length_back := by simp only [List.length_append, List.length_reverse, b.length_back] }

/-- The octets without the first `n`. -/
def since (b : Buffer) (n : Nat) : Octets :=
  if b.frontSize ≤ n then (b.back.take (b.size - n)).reverse else b.toOctets.drop n

theorem toOctets_eq (b : Buffer) : b.toOctets = b.front ++ b.back.reverse := by
  unfold toOctets
  split
  · rename_i h
    rw [h, List.reverse_nil, List.append_nil]
  · rfl

@[simp]
theorem length_toOctets (b : Buffer) : b.toOctets.length = b.size := by
  rw [toOctets_eq, List.length_append, List.length_reverse, b.length_front, b.length_back, size]

@[simp]
theorem toOctets_ofOctets (b : Octets) : (ofOctets b).toOctets = b := rfl

@[simp]
theorem toOctets_append (b : Buffer) (piece : Octets) :
    (b.append piece).toOctets = b.toOctets ++ piece := by
  simp only [toOctets_eq, append, List.reverse_append, List.reverse_reverse, List.append_assoc]

def drop (b : Buffer) (n : Nat) : Buffer :=
  ⟨b.toOctets.drop n, [], b.size - n, 0, by rw [List.length_drop, length_toOctets], rfl⟩

@[simp]
theorem toOctets_drop (b : Buffer) (n : Nat) : (b.drop n).toOctets = b.toOctets.drop n := rfl

@[simp]
theorem size_drop (b : Buffer) (n : Nat) : (b.drop n).size = b.size - n := rfl

@[simp]
theorem since_eq_drop (b : Buffer) (n : Nat) : b.since n = b.toOctets.drop n := by
  unfold since
  split
  · rename_i h
    have hsize : b.size - n = b.back.length - (n - b.front.length) := by
      rw [size, b.length_front, b.length_back]
      omega
    rw [toOctets_eq, List.drop_append, List.drop_eq_nil_of_le (b.length_front ▸ h),
      List.nil_append, List.drop_reverse, hsize]
  · rfl

end Buffer
end HttpWire
