import HttpWire.Connection

/-! Loops as machines: a state and a step, taken until the machine is done or fails. -/
namespace HttpWire

/-- What a step comes to. -/
inductive Step (ω : Type) where
  | more
  | done (output : ω)
deriving DecidableEq, Repr

/-- A machine with state `μ` that ends with an `ω`. The supply bounds the steps to come and the
times one is put off. -/
class Stepwise (μ : Type) (ω : outParam Type) where
  step : μ → Progress (Except Error (Step ω)) × μ
  supply : μ → Nat
  supply_more {m m' : μ} : step m = (.ready (.ok .more), m') → supply m' < supply m
  supply_again {m m' : μ} : step m = (.again, m') → supply m' < supply m

namespace Stepwise
variable {μ ω : Type} [Stepwise μ ω]

/-- Step until the machine is done or fails. There is no result if it stalls. -/
def drive (m : μ) : Option (Except Error ω) × μ :=
  match h : step m with
  | (.ready (.ok .more), m') =>
    have := supply_more h
    drive m'
  | (.again, m') =>
    have := supply_again h
    drive m'
  | (.ready (.ok (.done output)), m') => (some (.ok output), m')
  | (.ready (.error e), m') => (some (.error e), m')
  | (.stalled, m') => (none, m')
termination_by supply m

theorem drive_of_more {m m' : μ} (h : step m = (.ready (.ok .more), m')) : drive m = drive m' := by
  rw [drive]
  split <;> simp_all

theorem drive_of_again {m m' : μ} (h : step m = (.again, m')) : drive m = drive m' := by
  rw [drive]
  split <;> simp_all

theorem drive_of_done {m m' : μ} {output : ω} (h : step m = (.ready (.ok (.done output)), m')) :
    drive m = (some (.ok output), m') := by
  rw [drive]
  split <;> simp_all

theorem drive_of_error {m m' : μ} {e : Error} (h : step m = (.ready (.error e), m')) :
    drive m = (some (.error e), m') := by
  rw [drive]
  split <;> simp_all

theorem drive_of_stalled {m m' : μ} (h : step m = (.stalled, m')) : drive m = (none, m') := by
  rw [drive]
  split <;> simp_all

inductive Turn (ω : Type) where
  | ended (result : Except Error ω)
  /-- The machine was put off, and is worth another turn at once. -/
  | again
  /-- The machine has taken all the steps it may, and lets others go first. -/
  | spent
  | stalled

/-- Step until the machine is done, fails, is put off or stalls, or until the next step would be
one more than `allowance` of those that count. -/
def turn (counts : μ → Bool) (allowance : Nat) (m : μ) : Turn ω × μ :=
  if counts m && allowance == 0 then (.spent, m)
  else
    match h : step m with
    | (.ready (.ok .more), m') =>
      have := supply_more h
      turn counts (if counts m then allowance - 1 else allowance) m'
    | (.again, m') => (.again, m')
    | (.ready (.ok (.done output)), m') => (.ended (.ok output), m')
    | (.ready (.error e), m') => (.ended (.error e), m')
    | (.stalled, m') => (.stalled, m')
termination_by supply m

/-- What a machine comes to after a turn, when it has all the turns it needs. -/
def Turn.finish (t : Turn ω) (m : μ) : Option (Except Error ω) × μ :=
  match t with
  | ended result => (some result, m)
  | stalled => (none, m)
  | again => drive m
  | spent => drive m

/-- Turns divide the steps of a machine and change nothing else. -/
theorem finish_turn (counts : μ → Bool) (allowance : Nat) (m : μ) :
    (turn counts allowance m).1.finish (turn counts allowance m).2 = drive m := by
  fun_induction turn counts allowance m with
  | case1 => rfl
  | case2 allowance m hc m' hstep hlt ih => exact ih.trans (drive_of_more hstep).symm
  | case3 allowance m hc m' hstep => exact (drive_of_again hstep).symm
  | case4 allowance m hc output m' hstep => exact (drive_of_done hstep).symm
  | case5 allowance m hc e m' hstep => exact (drive_of_error hstep).symm
  | case6 allowance m hc m' hstep => exact (drive_of_stalled hstep).symm

theorem supply_turn_again {counts : μ → Bool} {allowance : Nat} {m m' : μ}
    (h : turn counts allowance m = (.again, m')) : supply m' < supply m := by
  fun_induction turn counts allowance m with
  | case1 => simp at h
  | case2 allowance m hc u hstep hlt ih => exact Nat.lt_trans (ih h) hlt
  | case3 allowance m hc u hstep =>
    simp only [Prod.mk.injEq, true_and] at h
    exact h ▸ supply_again hstep
  | case4 => simp at h
  | case5 => simp at h
  | case6 => simp at h

theorem supply_turn_spent_le {counts : μ → Bool} {allowance : Nat} {m m' : μ}
    (h : turn counts allowance m = (.spent, m')) : supply m' ≤ supply m := by
  fun_induction turn counts allowance m with
  | case1 =>
    simp only [Prod.mk.injEq, true_and] at h
    exact h ▸ Nat.le_refl _
  | case2 allowance m hc u hstep hlt ih => exact Nat.le_trans (ih h) (Nat.le_of_lt hlt)
  | case3 => simp at h
  | case4 => simp at h
  | case5 => simp at h
  | case6 => simp at h

/-- A turn with an allowance is not for nothing. -/
theorem supply_turn_spent {counts : μ → Bool} {allowance : Nat} {m m' : μ} (ha : 0 < allowance)
    (h : turn counts allowance m = (.spent, m')) : supply m' < supply m := by
  unfold turn at h
  split at h
  · rename_i hc
    simp only [Bool.and_eq_true, beq_iff_eq] at hc
    omega
  · split at h
    · rename_i u hstep
      exact Nat.lt_of_le_of_lt (supply_turn_spent_le h) (supply_more hstep)
    all_goals simp at h

end Stepwise
end HttpWire
