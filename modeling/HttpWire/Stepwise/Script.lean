import HttpWire.Stepwise

/-! A machine that plays a script: what its steps come to is laid out in advance. -/
namespace HttpWire

inductive StepItem (ω : Type) where
  | more
  /-- Not ready for once, then more. -/
  | pause
  | done (output : ω)
  | failure (e : Error)

/-- The items to come, and how many steps have ended. -/
structure StepScript (ω : Type) where
  items : List (StepItem ω)
  taken : Nat

namespace StepScript
variable {ω : Type}

def new (items : List (StepItem ω)) : StepScript ω := ⟨items, 0⟩

/-- One step. After the last item nothing happens any more. -/
def step (m : StepScript ω) : Progress (Except Error (Step ω)) × StepScript ω :=
  match m.items with
  | [] => (.stalled, m)
  | .more :: items => (.ready (.ok .more), ⟨items, m.taken + 1⟩)
  | .pause :: items => (.again, ⟨.more :: items, m.taken⟩)
  | .done output :: items => (.ready (.ok (.done output)), ⟨items, m.taken + 1⟩)
  | .failure e :: items => (.ready (.error e), ⟨items, m.taken + 1⟩)

/-- How often an item can put the end off. -/
def weight : StepItem ω → Nat
  | .pause => 2
  | _ => 1

instance : Stepwise (StepScript ω) ω where
  step := step
  supply m := sumOf weight m.items
  supply_more {m m'} h := by
    unfold step at h
    split at h <;> simp only [Prod.mk.injEq, reduceCtorEq, false_and, Progress.ready.injEq,
      Except.ok.injEq] at h
    rename_i items hm
    obtain ⟨-, rfl⟩ := h
    simp [hm, weight]
  supply_again {m m'} h := by
    unfold step at h
    split at h <;> simp only [Prod.mk.injEq, reduceCtorEq, false_and] at h
    rename_i items hm
    obtain ⟨-, rfl⟩ := h
    simp [hm, weight]

end StepScript
end HttpWire
