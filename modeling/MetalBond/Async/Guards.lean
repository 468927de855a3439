import MetalBond.Async.Task

namespace Async.Task

variable {L W U α β : Type}

inductive LockEvent (L : Type)
  | acquire (l : L) (m : Mode)
  | release (l : L) (m : Mode)

/-- The acquisitions and releases of a task, each acquisition taken as granted. -/
def lockEvents : Task L W U α → Shared W U → List (LockEvent L)
  | ret _, _ => []
  | act f k, s => lockEvents (k s.world) { s with world := f s.world }
  | lock l m k, s => .acquire l m :: lockEvents k s
  | unlock l m k, s => .release l m :: lockEvents k s
  | send u k, s => lockEvents (k (s.chan.send u).1) { s with chan := (s.chan.send u).2 }

variable [DecidableEq L]

/-- No acquisition of the sequence conflicts with a guard of the task itself. -/
def ConflictFree : List (Guard L) → List (LockEvent L) → Prop
  | _, [] => True
  | held, .acquire l m :: es => clashes held l m = false ∧ ConflictFree ((l, m) :: held) es
  | held, .release l m :: es => ConflictFree (held.erase (l, m)) es

/-- A task blocks on itself exactly when its sequence of lock events has a conflict. -/
theorem conflictFree_iff (held : List (Guard L)) (t : Task L W U α) (s : Shared W U) :
    ConflictFree held (lockEvents t s) ↔ ∃ a held' s', exec held t s = .done a held' s' := by
  induction t generalizing held s with
  | ret a => exact ⟨fun _ ↦ ⟨a, held, s, rfl⟩, fun _ ↦ trivial⟩
  | act f k ih => exact ih _ _ _
  | lock l m k ih =>
    simp only [lockEvents, ConflictFree, exec, ih]
    cases hc : clashes held l m <;> simp
  | unlock l m k ih => exact ih _ _
  | send u k ih => exact ih _ _ _

def Ends (held held' : List (Guard L)) (t : Task L W U α) : Prop :=
  ∀ s, ∃ a s', exec held t s = .done a held' s'

namespace Ends

variable {held held' held'' : List (Guard L)} {t : Task L W U α} {g : α → Task L W U β}

theorem ret (a : α) : Ends held held (.ret a : Task L W U α) := fun s ↦ ⟨a, s, rfl⟩

theorem bind (h : Ends held held' t) (hg : ∀ a, Ends held' held'' (g a)) :
    Ends held held'' (t >>= g) := by
  intro s
  obtain ⟨a, s', ht⟩ := h s
  obtain ⟨b, s'', hb⟩ := hg a s'
  exact ⟨b, s'', by rw [exec_bind, ht, Outcome.done_andThen, hb]⟩

theorem gets (f : W → α) : Ends held held (gets f : Task L W U α) := fun s ↦ ⟨_, s, rfl⟩

theorem modify (f : W → W) : Ends held held (modify f : Task L W U Unit) := fun _ ↦ ⟨_, _, rfl⟩

theorem update (f : W → α × W) : Ends held held (update f : Task L W U α) := fun _ ↦ ⟨_, _, rfl⟩

theorem sendOn (u : U) : Ends held held (sendOn u : Task L W U Bool) := fun _ ↦ ⟨_, _, rfl⟩

theorem acquire {l : L} {m : Mode} (h : clashes held l m = false) :
    Ends held ((l, m) :: held) (acquire l m : Task L W U Unit) := by
  intro s
  exact ⟨(), s, by rw [exec_acquire, h]; rfl⟩

theorem release (l : L) (m : Mode) :
    Ends ((l, m) :: held) held (release l m : Task L W U Unit) := by
  intro s
  exact ⟨(), s, by rw [exec_release, List.erase_cons_head]⟩

theorem reading {l : L} (h : clashes held l .read = false) (f : W → α) :
    Ends held held (reading l f : Task L W U α) := fun s ↦ ⟨_, s, exec_reading held s h f⟩

theorem writing {l : L} (h : clashes held l .write = false) (f : W → α × W) :
    Ends held held (writing l f : Task L W U α) := fun s ↦ ⟨_, _, exec_writing held s h f⟩

theorem conflictFree (h : Ends held held' t) (s : Shared W U) :
    ConflictFree held (lockEvents t s) := by
  obtain ⟨a, s', ht⟩ := h s
  exact (conflictFree_iff held t s).mpr ⟨a, held', s', ht⟩

end Ends

end Async.Task
