import MetalBond.Async.Owned

namespace Async

variable {V L W U α : Type} {view : W → V} {Allowed : V → Prop} {v : V}

/-- The task that a part of the data belongs to leaves it as allowed with every step. -/
def script (view : W → V) (Allowed : V → Prop) : Protocol V L W U where
  Knows v _ s := view s.world = v
  Step _ _ _ v' s' := view s'.world = v' ∧ Allowed v'
  Idle _ := True
  Start _ _ _ := True

namespace Task

theorem quiet_script (h : Allowed v) :
    Quiet (script (L := L) (U := U) view Allowed) v (Same view) fun _ ↦ True where
  act hs hsame := ⟨hsame.trans hs, h⟩
  acquire hs _ := ⟨hs, h⟩
  release hs _ := ⟨hs, h⟩

end Task

namespace Pool

open Async.Task (Confined)

variable {ι : Type} {Post : V → α → Prop} {i : ι} {c c' : Pool ι L W U α}
variable {Starts : ι → Option U → Task L W U α → Prop}

structure Scripted (view : W → V) (Allowed : V → Prop) (Post : V → α → Prop) (i : ι)
    (c : Pool ι L W U α) : Prop where
  now : Allowed (view c.shared.world)
  own : Task.Follows (script view Allowed) Post (c.code i) (view c.shared.world)
  others : ∀ j, j ≠ i → Confined (Same view) (c.code j)

theorem Scripted.returned (h : Scripted view Allowed Post i c) {a : α} (ha : c.code i = .ret a) :
    Post (view c.shared.world) a := by
  have hown := h.own
  rwa [ha] at hown

/-- The task is started once and for all; the others leave its part alone. -/
structure Alone (view : W → V) (i : ι) (Starts : ι → Option U → Task L W U α → Prop) : Prop where
  never : ∀ o t, ¬ Starts i o t
  others : ∀ j o t, Starts j o t → Confined (Same view) t

variable [DecidableEq ι]

theorem Scripted.set_other (h : Scripted view Allowed Post i c) {j : ι} (hj : j ≠ i)
    {p : Proc L W U α} {s : Shared W U} (hp : Confined (Same view) p.code)
    (hs : Same view c.shared s) : Scripted view Allowed Post i (c.set j p s) := by
  refine ⟨hs ▸ h.now, ?_, fun k hk ↦ ?_⟩
  · rw [code_set, Function.update_of_ne hj.symm]
    exact hs ▸ h.own
  · by_cases hkj : k = j
    · rwa [hkj, code_set, Function.update_self]
    · rw [code_set, Function.update_of_ne hkj]
      exact h.others k hk

variable [DecidableEq L]

theorem Scripted.step (h : Scripted view Allowed Post i c) (halone : Alone view i Starts)
    (hstep : Step Starts c c') : Scripted view Allowed Post i c' := by
  have hstart {j : ι} {o : Option U} {t : Task L W U α} (hstart : Starts j o t)
      {held : List (Guard L)} {s : Shared W U} (hs : s.world = c.shared.world) :
      Scripted view Allowed Post i (c.set j ⟨held, t⟩ s) := by
    have hj : j ≠ i := by
      rintro rfl
      exact halone.never o t hstart
    exact h.set_other hj (halone.others j o t hstart) (congrArg view hs)
  cases hstep with
  | move j e t s _ hmove =>
    by_cases hj : j = i
    · subst hj
      obtain ⟨v', ⟨hv', hallowed⟩, ht⟩ := h.own.move hmove rfl
      refine ⟨hv'.symm ▸ hallowed, ?_, fun k hk ↦ ?_⟩
      · rw [code_set, Function.update_self]
        exact hv'.symm ▸ ht
      · rw [code_set, Function.update_of_ne hk]
        exact h.others k hk
    · obtain ⟨hsame, ht⟩ := (h.others j hj).move hmove
      exact h.set_other hj ht hsame
  | start j t _ hwork => exact hstart hwork rfl
  | receive j u ch t _ hrecv hwork => exact hstart hwork rfl

theorem Scripted.run (h : Scripted view Allowed Post i c) (halone : Alone view i Starts)
    (hrun : Run (Step Starts) c c') : Scripted view Allowed Post i c' :=
  hrun.invariant h fun _ _ h hstep ↦ h.step halone hstep

end Pool

end Async
