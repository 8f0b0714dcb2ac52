import HttpWire.Stepwise
import Mathlib

/-! Whole runs of a machine, from what its steps keep and where they end. -/
namespace HttpWire.Stepwise
variable {μ ω : Type} [Stepwise μ ω]

/-- What holds of every state holds of the one that the last step is taken from. -/
theorem exists_last {P : μ → Prop} {m m' : μ} {r : Option (Except Error ω)}
    (hmore : ∀ m m', P m → step m = (.ready (.ok .more), m') → P m')
    (hagain : ∀ m m', P m → step m = (.again, m') → P m') (hm : P m) (h : drive m = (r, m')) :
    ∃ last, P last ∧
      ((∃ output, r = some (.ok output) ∧ step last = (.ready (.ok (.done output)), m')) ∨
        (∃ e, r = some (.error e) ∧ step last = (.ready (.error e), m')) ∨
        r = none ∧ step last = (.stalled, m')) := by
  fun_induction drive m with
  | case1 m u hstep hlt ih => exact ih (hmore m u hm hstep) h
  | case2 m u hstep hlt ih => exact ih (hagain m u hm hstep) h
  | case3 m output u hstep =>
    obtain ⟨rfl, rfl⟩ := Prod.mk.inj h
    exact ⟨m, hm, .inl ⟨output, rfl, hstep⟩⟩
  | case4 m e u hstep =>
    obtain ⟨rfl, rfl⟩ := Prod.mk.inj h
    exact ⟨m, hm, .inr (.inl ⟨e, rfl, hstep⟩)⟩
  | case5 m u hstep =>
    obtain ⟨rfl, rfl⟩ := Prod.mk.inj h
    exact ⟨m, hm, .inr (.inr ⟨rfl, hstep⟩)⟩

/-- The step goes on in a state of which `P` holds, or ends as `Q` says. It does not stall. -/
def Goes (P : μ → Prop) (Q : Except Error ω → μ → Prop) :
    Progress (Except Error (Step ω)) × μ → Prop
  | (.ready (.ok .more), m) => P m
  | (.again, m) => P m
  | (.ready (.ok (.done output)), m) => Q (.ok output) m
  | (.ready (.error e), m) => Q (.error e) m
  | (.stalled, _) => False

/-- A machine that never stalls comes to its end. -/
theorem exists_drive_eq {P : μ → Prop} {Q : Except Error ω → μ → Prop}
    (hstep : ∀ m, P m → Goes P Q (step m)) {m : μ} (hm : P m) :
    ∃ result m', drive m = (some result, m') ∧ Q result m' := by
  fun_induction drive m with
  | case1 m u h hlt ih =>
    have hgoes := hstep m hm
    rw [h] at hgoes
    exact ih hgoes
  | case2 m u h hlt ih =>
    have hgoes := hstep m hm
    rw [h] at hgoes
    exact ih hgoes
  | case3 m output u h =>
    have hgoes := hstep m hm
    rw [h] at hgoes
    exact ⟨.ok output, u, rfl, hgoes⟩
  | case4 m e u h =>
    have hgoes := hstep m hm
    rw [h] at hgoes
    exact ⟨.error e, u, rfl, hgoes⟩
  | case5 m u h =>
    have hgoes := hstep m hm
    rw [h] at hgoes
    exact hgoes.elim

/-- Step at most so many times, stalls and the like included. There is no result if the machine has
not ended by then. -/
def attempt : Nat → μ → Option (Except Error ω) × μ
  | 0, m => (none, m)
  | k + 1, m =>
    match step m with
    | (.ready (.ok .more), m) => attempt k m
    | (.ready (.ok (.done output)), m) => (some (.ok output), m)
    | (.ready (.error e), m) => (some (.error e), m)
    | (.again, m) => attempt k m
    | (.stalled, m) => attempt k m

/-- To drive a machine is to step it so many times. -/
theorem exists_attempt_eq_drive (m : μ) : ∃ k, attempt k m = drive m := by
  fun_induction drive m with
  | case1 m u hstep hlt ih =>
    obtain ⟨k, hk⟩ := ih
    exact ⟨k + 1, by simp only [attempt, hstep, hk]⟩
  | case2 m u hstep hlt ih =>
    obtain ⟨k, hk⟩ := ih
    exact ⟨k + 1, by simp only [attempt, hstep, hk]⟩
  | case3 m output u hstep => exact ⟨1, by simp only [attempt, hstep]⟩
  | case4 m e u hstep => exact ⟨1, by simp only [attempt, hstep]⟩
  | case5 m u hstep => exact ⟨1, by simp only [attempt, hstep]⟩

/-- What holds of a machine after some steps: `P` while it goes on, `Q` once it has ended. -/
def Stands (P : μ → Prop) (Q : Except Error ω → μ → Prop) : Option (Except Error ω) × μ → Prop
  | (none, m) => P m
  | (some result, m) => Q result m

theorem stands_attempt {P : μ → Prop} {Q : Except Error ω → μ → Prop}
    (hstep : ∀ m, P m → Goes P Q (step m)) {m : μ} (hm : P m) (k : Nat) :
    Stands P Q (attempt k m) := by
  induction k generalizing m with
  | zero => exact hm
  | succ k ih =>
    have hgoes := hstep m hm
    rw [attempt]
    split
    all_goals
      rename_i h
      rw [h] at hgoes
    · exact ih hgoes
    · exact hgoes
    · exact hgoes
    · exact ih hgoes
    · exact hgoes.elim

/-- A map of states that every step respects is respected by whole runs. -/
theorem drive_map {f : μ → μ} (h : ∀ m, step (f m) = ((step m).1, f (step m).2)) (m : μ) :
    drive (f m) = ((drive m).1, f (drive m).2) := by
  fun_induction drive m with
  | case1 m u hstep hlt ih =>
    have hf := h m
    rw [hstep] at hf
    rw [drive_of_more hf, ih]
  | case2 m u hstep hlt ih =>
    have hf := h m
    rw [hstep] at hf
    rw [drive_of_again hf, ih]
  | case3 m output u hstep =>
    have hf := h m
    rw [hstep] at hf
    rw [drive_of_done hf]
  | case4 m e u hstep =>
    have hf := h m
    rw [hstep] at hf
    rw [drive_of_error hf]
  | case5 m u hstep =>
    have hf := h m
    rw [hstep] at hf
    rw [drive_of_stalled hf]

end HttpWire.Stepwise
