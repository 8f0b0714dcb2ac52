import HttpWire.Proofs.Connection.Input

/-! The course of a scripted input up to where it ends or breaks off, whatever pieces it comes
in. -/
namespace HttpWire
namespace Script
variable {s t : Script} {n : Nat} {b : Octets}

/-- What these items bring before the input ends or breaks off, and what it breaks off with. -/
def courseOf : List ReadItem → Octets × Option IoError
  | [] => ([], none)
  | .data b :: rest => if b = [] then ([], none) else (b ++ (courseOf rest).1, (courseOf rest).2)
  | .failure e :: rest => if e = .interrupted then courseOf rest else ([], some e)
  | .notReady :: rest => courseOf rest

def course (s : Script) : Octets × Option IoError :=
  (s.held ++ (courseOf s.reads).1, (courseOf s.reads).2)

/-- It makes no difference how data is cut into pieces. -/
theorem courseOf_pieces {pieces : List Octets} (hne : ∀ piece ∈ pieces, piece ≠ [])
    (rest : List ReadItem) : courseOf (pieces.map .data ++ rest) =
      (pieces.flatten ++ (courseOf rest).1, (courseOf rest).2) := by
  induction pieces with
  | nil => rfl
  | cons piece pieces ih =>
    obtain ⟨hpiece, hpieces⟩ := List.forall_mem_cons.1 hne
    rw [List.map_cons, List.cons_append, courseOf, if_neg hpiece, ih hpieces, List.flatten_cons,
      List.append_assoc]

theorem course_of_read_octets (hb : b ≠ []) (h : s.read n = (.ready (.ok b), t)) :
    s.course = (b ++ t.course.1, t.course.2) := by
  cases yields_of_read h with
  | held => simp only [course, deliver, ← List.append_assoc, List.take_append_drop]
  | ended => exact absurd rfl hb
  | @data c rest hheld hreads =>
    have hc : c ≠ [] := by
      rintro rfl
      exact hb List.take_nil
    simp only [course, deliver, hheld, hreads, courseOf, if_neg hc, ← List.append_assoc,
      List.take_append_drop, List.nil_append]

theorem course_of_read_end (hn : 0 < n) (h : s.read n = (.ready (.ok []), t)) :
    s.course = ([], none) := by
  generalize hb : ([] : Octets) = b at h
  cases yields_of_read h with
  | held hheld => exact absurd (eq_nil_of_take_eq_nil hn hb.symm) hheld
  | ended hheld hreads => simp only [course, hheld, hreads, courseOf, List.append_nil]
  | data hheld hreads =>
    rw [← hb]
    obtain rfl := eq_nil_of_take_eq_nil hn hb.symm
    simp only [course, hheld, hreads, courseOf, if_true, List.append_nil]

theorem course_of_read_error {e : IoError} (h : s.read n = (.ready (.error e), t)) :
    s.course = if e = .interrupted then t.course else ([], some e) := by
  cases yields_of_read h with
  | failure hheld hreads => simp only [course, hheld, hreads, courseOf, List.nil_append]

theorem course_of_read_again (h : s.read n = (.again, t)) : s.course = t.course := by
  cases yields_of_read h with
  | notReady hheld hreads => simp only [course, hreads, courseOf]

end Script

namespace PacketReader
open Script

/-- What an answer says of the course of the input. -/
inductive Follows (s : Script) : Progress (Except Error Octets) → Script → Prop
  | ended {t : Script} (h : s.course = ([], none)) : Follows s (.ready (.ok [])) t
  | packet {t : Script} {b : Octets} (hb : b ≠ []) (h : s.course = (b ++ t.course.1, t.course.2)) :
    Follows s (.ready (.ok b)) t
  | failed {t : Script} {e : IoError} (h : s.course = ([], some e)) :
    Follows s (.ready (.error (.io e))) t
  | putOff {t : Script} (h : s.course = t.course) : Follows s .again t

variable {r : PacketReader} {s t u : Script} {n : Nat} {p : Progress (Except Error Octets)}

theorem Follows.of_course_eq (h : Follows u p t) (hcourse : s.course = u.course) :
    Follows s p t := by
  cases h with
  | ended h => exact .ended (hcourse.trans h)
  | packet hb h => exact .packet hb (hcourse.trans h)
  | failed h => exact .failed (hcourse.trans h)
  | putOff h => exact .putOff (hcourse.trans h)

theorem follows_read (hn : 0 < n) (h : read n s = (p, t)) : Follows s p t := by
  fun_induction read n s with
  | case1 s u hread hlt ih =>
    exact (ih h).of_course_eq ((course_of_read_error hread).trans (if_pos rfl))
  | case2 s e u hne hread =>
    obtain ⟨rfl, rfl⟩ := Prod.mk.inj h
    exact .failed ((course_of_read_error hread).trans (if_neg hne))
  | case3 s b u hread =>
    obtain ⟨rfl, rfl⟩ := Prod.mk.inj h
    by_cases hb : b = []
    · subst hb
      exact .ended (course_of_read_end hn hread)
    · exact .packet hb (course_of_read_octets hb hread)
  | case4 s u hread =>
    obtain ⟨rfl, rfl⟩ := Prod.mk.inj h
    exact .putOff (course_of_read_again hread)
  | case5 s u hread => exact absurd hread Script.read_ne_stalled

theorem follows_pull (hr : r.isOpen = true) (hsize : 0 < r.packetSize)
    (h : r.pull s = (p, t)) : Follows s p t := by
  rw [pull, if_pos hr] at h
  exact follows_read hsize h

end PacketReader
end HttpWire
