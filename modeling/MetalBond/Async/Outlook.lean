import MetalBond.Async.Interleave

namespace Async.Task

variable {L W U α β : Type}

/-- Whatever others do within `Pre`, the task takes a step within `Hit` before it ends. -/
def Bound (Pre : Shared W U → Prop) (Hit : Shared W U → Shared W U → Prop) :
    Task L W U α → Prop
  | ret _ => False
  | act f k => ∀ s, Pre s → Hit s { s with world := f s.world } ∨ Bound Pre Hit (k s.world)
  | lock _ _ k | unlock _ _ k => Bound Pre Hit k
  | send u k => ∀ s, Pre s →
    Hit s { s with chan := (s.chan.send u).2 } ∨ Bound Pre Hit (k (s.chan.send u).1)

/-- Others can act within `Pre` such that the task takes a step within `Hit`. -/
def Able (Pre : Shared W U → Prop) (Hit : Shared W U → Shared W U → Prop) :
    Task L W U α → Prop
  | ret _ => False
  | act f k => ∃ s, Pre s ∧ (Hit s { s with world := f s.world } ∨ Able Pre Hit (k s.world))
  | lock _ _ k | unlock _ _ k => Able Pre Hit k
  | send u k => ∃ s, Pre s ∧
    (Hit s { s with chan := (s.chan.send u).2 } ∨ Able Pre Hit (k (s.chan.send u).1))

section Bound

variable {Pre : Shared W U → Prop} {Hit : Shared W U → Shared W U → Prop}
variable {t t' : Task L W U α} {s s' : Shared W U}

theorem Bound.move {e : Option (LockEvent L)} (h : Bound Pre Hit t) (hmove : Move t s e t' s')
    (hs : Pre s) : Hit s s' ∨ Bound Pre Hit t' := by
  cases hmove with
  | act f k => exact h s hs
  | lock l m k => exact .inr h
  | unlock l m k => exact .inr h
  | send u k => exact h s hs

theorem Bound.step {ι : Type} [DecidableEq ι] [DecidableEq L]
    {Starts : ι → Option U → Task L W U α → Prop} {c c' : Pool ι L W U α} {i : ι}
    (h : Bound Pre Hit (c.code i)) (hstep : Pool.Step Starts c c') (hs : Pre c.shared) :
    Hit c.shared c'.shared ∨ Bound Pre Hit (c'.code i) := by
  rcases hstep.code i with heq | ⟨e, hmove⟩ | ⟨o, ⟨a, ha⟩, -⟩
  · rw [heq]
    exact .inr h
  · exact h.move hmove hs
  · rw [ha] at h
    exact h.elim

end Bound

/-- Whatever others do within `Pre`, the task takes no step within `Hit`. -/
def Unable (Pre : Shared W U → Prop) (Hit : Shared W U → Shared W U → Prop) (t : Task L W U α) :
    Prop := ¬ Able Pre Hit t

namespace Unable

variable {Pre : Shared W U → Prop} {Hit : Shared W U → Shared W U → Prop}
variable {t t' : Task L W U α} {g : α → Task L W U β} {s s' : Shared W U}

theorem ret (a : α) : Unable Pre Hit (.ret a : Task L W U α) := id

theorem act {f : W → W} {k : W → Task L W U α} :
    Unable Pre Hit (.act f k) ↔
      ∀ s, Pre s → ¬ Hit s { s with world := f s.world } ∧ Unable Pre Hit (k s.world) := by
  simp only [Unable, Able, not_exists, not_and, not_or]

theorem send {u : U} {k : Bool → Task L W U α} :
    Unable Pre Hit (.send u k) ↔
      ∀ s, Pre s → ¬ Hit s { s with chan := (s.chan.send u).2 } ∧
        Unable Pre Hit (k (s.chan.send u).1) := by
  simp only [Unable, Able, not_exists, not_and, not_or]

theorem of_confined {R : Shared W U → Shared W U → Prop} (h : Confined R t)
    (hR : ∀ s s', R s s' → ¬ Hit s s') : Unable Pre Hit t := by
  induction t with
  | ret a => exact ret a
  | act f k ih => exact act.mpr fun s _ ↦ ⟨hR _ _ (h.1 s), ih _ (h.2 _)⟩
  | lock l m k ih => exact ih h
  | unlock l m k ih => exact ih h
  | send u k ih => exact send.mpr fun s _ ↦ ⟨hR _ _ (h.1 s), ih _ (h.2 _)⟩

variable [Std.Irrefl Hit]

theorem reading_bind {l : L} {f : W → β} {g : β → Task L W U α}
    (h : ∀ s, Pre s → Unable Pre Hit (g (f s.world))) : Unable Pre Hit (reading l f >>= g) := by
  have hread : Unable Pre Hit
      (.act id fun w ↦ .unlock l .read (g (f w)) : Task L W U α) :=
    act.mpr fun s hs ↦ ⟨Std.Irrefl.irrefl s, h s hs⟩
  exact hread

theorem move {e : Option (LockEvent L)} (h : Unable Pre Hit t) (hmove : Move t s e t' s')
    (hs : Pre s) : ¬ Hit s s' ∧ Unable Pre Hit t' := by
  cases hmove with
  | act f k => exact act.mp h s hs
  | lock l m k => exact ⟨Std.Irrefl.irrefl s, h⟩
  | unlock l m k => exact ⟨Std.Irrefl.irrefl s, h⟩
  | send u k => exact send.mp h s hs

end Unable

end Async.Task
