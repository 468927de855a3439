import MetalBond.Async.Task
import Mathlib.Order.Defs.Unbundled

namespace Async.Task

variable {L W U α β : Type}

/-- Every single step of the task relates the state before it to the state after it, in
whatever state the task takes it. -/
def Confined (R : Shared W U → Shared W U → Prop) : Task L W U α → Prop
  | ret _ => True
  | act f k => (∀ s, R s { s with world := f s.world }) ∧ ∀ w, Confined R (k w)
  | lock _ _ k | unlock _ _ k => Confined R k
  | send u k => (∀ s, R s { s with chan := (s.chan.send u).2 }) ∧ ∀ b, Confined R (k b)

theorem confined_true (t : Task L W U α) : Confined (fun _ _ ↦ True) t := by
  induction t with
  | ret a => trivial
  | act f k ih => exact ⟨fun _ ↦ trivial, ih⟩
  | lock l m k ih => exact ih
  | unlock l m k ih => exact ih
  | send u k ih => exact ⟨fun _ ↦ trivial, ih⟩

namespace Confined

variable {R R' : Shared W U → Shared W U → Prop} {t : Task L W U α} {g : α → Task L W U β}

theorem mono (h : Confined R t) (hR : ∀ s s', R s s' → R' s s') : Confined R' t := by
  induction t with
  | ret a => trivial
  | act f k ih => exact ⟨fun s ↦ hR _ _ (h.1 s), fun w ↦ ih w (h.2 w)⟩
  | lock l m k ih => exact ih h
  | unlock l m k ih => exact ih h
  | send u k ih => exact ⟨fun s ↦ hR _ _ (h.1 s), fun b ↦ ih b (h.2 b)⟩

theorem bind (h : Confined R t) (hg : ∀ a, Confined R (g a)) : Confined R (t >>= g) := by
  induction t with
  | ret a => exact hg a
  | act f k ih => exact ⟨h.1, fun w ↦ ih w (h.2 w)⟩
  | lock l m k ih => exact ih h
  | unlock l m k ih => exact ih h
  | send u k ih => exact ⟨h.1, fun b ↦ ih b (h.2 b)⟩

theorem ret (a : α) : Confined R (.ret a : Task L W U α) := trivial

theorem acquire (l : L) (m : Mode) : Confined R (acquire l m : Task L W U Unit) := trivial

theorem release (l : L) (m : Mode) : Confined R (release l m : Task L W U Unit) := trivial

theorem modify {f : W → W} (h : ∀ s : Shared W U, R s { s with world := f s.world }) :
    Confined R (modify f : Task L W U Unit) := ⟨h, fun _ ↦ trivial⟩

theorem update {f : W → α × W} (h : ∀ s : Shared W U, R s { s with world := (f s.world).2 }) :
    Confined R (update f : Task L W U α) := ⟨h, fun _ ↦ trivial⟩

theorem sendOn {u : U} (h : ∀ s : Shared W U, R s { s with chan := (s.chan.send u).2 }) :
    Confined R (sendOn u : Task L W U Bool) := ⟨h, fun _ ↦ trivial⟩

theorem writing {l : L} {f : W → α × W}
    (h : ∀ s : Shared W U, R s { s with world := (f s.world).2 }) :
    Confined R (writing l f : Task L W U α) := ⟨h, fun _ ↦ trivial⟩

variable [Std.Refl R]

theorem gets (f : W → α) : Confined R (gets f : Task L W U α) :=
  ⟨fun s ↦ Std.Refl.refl s, fun _ ↦ trivial⟩

theorem reading (l : L) (f : W → α) : Confined R (reading l f : Task L W U α) :=
  ⟨fun s ↦ Std.Refl.refl s, fun _ ↦ trivial⟩

variable [IsTrans (Shared W U) R] [DecidableEq L]

theorem exec (h : Confined R t) (held : List (Guard L)) (s : Shared W U) :
    R s (exec held t s).shared := by
  induction t generalizing held s with
  | ret a => exact Std.Refl.refl s
  | act f k ih => exact IsTrans.trans _ _ _ (h.1 s) (ih _ (h.2 _) _ _)
  | lock l m k ih =>
    rw [Task.exec]
    split
    · exact Std.Refl.refl s
    · exact ih h _ _
  | unlock l m k ih => exact ih h _ _
  | send u k ih => exact IsTrans.trans _ _ _ (h.1 s) (ih _ (h.2 _) _ _)

end Confined

end Async.Task
