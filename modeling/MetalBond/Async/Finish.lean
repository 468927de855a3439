import MetalBond.Async.Frame

namespace Async.Task

variable {L W U α β : Type}

/-- Run a task to its end as if it got every lock that it asks for. -/
def finish : Task L W U α → Shared W U → α × Shared W U
  | ret a, s => (a, s)
  | act f k, s => finish (k s.world) { s with world := f s.world }
  | lock _ _ k, s | unlock _ _ k, s => finish k s
  | send u k, s => finish (k (s.chan.send u).1) { s with chan := (s.chan.send u).2 }

variable (s : Shared W U)

theorem finish_bind (t : Task L W U α) (g : α → Task L W U β) :
    finish (t >>= g) s = finish (g (finish t s).1) (finish t s).2 := by
  induction t generalizing s with
  | ret a => rfl
  | act f k ih => simp only [act_bind, finish, ih]
  | lock l m k ih => simp only [lock_bind, finish, ih]
  | unlock l m k ih => simp only [unlock_bind, finish, ih]
  | send u k ih => simp only [send_bind, finish, ih]

@[simp] theorem finish_ret (a : α) : finish (ret a : Task L W U α) s = (a, s) := rfl

@[simp] theorem finish_gets (f : W → α) :
    finish (gets f : Task L W U α) s = (f s.world, s) := rfl

@[simp] theorem finish_modify (f : W → W) :
    finish (modify f : Task L W U Unit) s = ((), { s with world := f s.world }) := rfl

@[simp] theorem finish_update (f : W → α × W) :
    finish (update f : Task L W U α) s = ((f s.world).1, { s with world := (f s.world).2 }) := rfl

@[simp] theorem finish_acquire (l : L) (m : Mode) :
    finish (acquire l m : Task L W U Unit) s = ((), s) := rfl

@[simp] theorem finish_release (l : L) (m : Mode) :
    finish (release l m : Task L W U Unit) s = ((), s) := rfl

@[simp] theorem finish_reading (l : L) (f : W → α) :
    finish (reading l f : Task L W U α) s = (f s.world, s) := rfl

@[simp] theorem finish_writing (l : L) (f : W → α × W) :
    finish (writing l f : Task L W U α) s =
      ((f s.world).1, { s with world := (f s.world).2 }) := rfl

theorem finish_of_exec [DecidableEq L] {t : Task L W U α} {held held' : List (Guard L)}
    {s s' : Shared W U} {a : α} (h : exec held t s = .done a held' s') : finish t s = (a, s') := by
  induction t generalizing held s with
  | ret a =>
    cases h
    rfl
  | act f k ih => exact ih _ h
  | lock l m k ih =>
    rw [exec] at h
    split at h
    · cases h
    · exact ih h
  | unlock l m k ih => exact ih h
  | send u k ih => exact ih _ h

end Async.Task
