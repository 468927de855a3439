import Mathlib.Logic.Relation
import Mathlib.Order.Defs.Unbundled

namespace Async

/-- `c'` can be reached from `c` by steps of a system. -/
abbrev Run {C : Type*} (Step : C → C → Prop) : C → C → Prop := Relation.ReflTransGen Step

variable {C : Type*} {Step Step' : C → C → Prop} {c c' c'' : C}

theorem Run.invariant {Inv : C → Prop} (hrun : Run Step c c') (hinit : Inv c)
    (hstep : ∀ c c', Inv c → Step c c' → Inv c') : Inv c' := by
  induction hrun with
  | refl => exact hinit
  | tail _ h ih => exact hstep _ _ ih h

theorem Run.along {Inv : C → Prop} (hrun : Run Step c c') (hinit : Inv c)
    (hstep : ∀ c c', Inv c → Step c c' → Inv c') : Run (fun d d' ↦ Step d d' ∧ Inv d) c c' := by
  induction hrun with
  | refl => exact .refl
  | tail hrun h ih => exact ih.tail ⟨h, Run.invariant hrun hinit hstep⟩

theorem Run.mono (hrun : Run Step c c') (h : ∀ c c', Step c c' → Step' c c') : Run Step' c c' :=
  Relation.ReflTransGen.mono h _ _ hrun

theorem Run.cons (h : Step c c') (hrun : Run Step c' c'') : Run Step c c'' :=
  Relation.ReflTransGen.head h hrun

theorem Run.snoc (hrun : Run Step c c') (h : Step c' c'') : Run Step c c'' :=
  Relation.ReflTransGen.tail hrun h

theorem Run.within {V : Type*} (view : C → V) {R : V → V → Prop} [Std.Refl R] [IsTrans V R]
    (hrun : Run (fun c c' ↦ Step c c' ∧ R (view c) (view c')) c c') : R (view c) (view c') := by
  induction hrun with
  | refl => exact Std.Refl.refl _
  | tail _ h ih => exact IsTrans.trans _ _ _ ih h.2

/-- When the steps keep to a preorder, every state on the way is below the last one. -/
theorem Run.toward {V : Type*} (view : C → V) {R : V → V → Prop} [Std.Refl R] [IsTrans V R]
    (hrun : Run (fun c c' ↦ Step c c' ∧ R (view c) (view c')) c c') :
    Run (fun d d' ↦ Step d d' ∧ R (view d) (view c') ∧ R (view d') (view c')) c c' := by
  have hboth : Run (fun d d' ↦ Step d d' ∧ R (view d) (view c') ∧ R (view d') (view c')) c c' ∧
      R (view c) (view c') := by
    induction hrun using Relation.ReflTransGen.head_induction_on with
    | refl => exact ⟨.refl, Std.Refl.refl _⟩
    | head h _ ih =>
      have hbelow := IsTrans.trans _ _ _ h.2 ih.2
      exact ⟨.cons ⟨h.1, hbelow, ih.2⟩ ih.1, hbelow⟩
  exact hboth.1

end Async
