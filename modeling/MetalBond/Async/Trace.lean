import MetalBond.Async.Task

namespace Async

namespace Outcome

variable {L W U α β : Type}

def collect (o : Outcome L W U α) (g : α → List (Guard L) → Shared W U → List β) : List β :=
  match o with
  | done a held s => g a held s
  | blocked _ _ _ => []

@[simp] theorem done_collect (a : α) (held : List (Guard L)) (s : Shared W U)
    (g : α → List (Guard L) → Shared W U → List β) : (done a held s).collect g = g a held s := rfl

@[simp] theorem blocked_collect (l : L) (m : Mode) (s : Shared W U)
    (g : α → List (Guard L) → Shared W U → List β) :
    (blocked l m s : Outcome L W U α).collect g = [] := rfl

end Outcome

namespace Task

variable {L W U α β E : Type} [DecidableEq L]

/-- What the steps of a task on the data show while it runs undisturbed; a step shows
events by what it does and by the data that it finds. -/
def events (view : (W → W) → W → List E) : List (Guard L) → Task L W U α → Shared W U → List E
  | _, ret _, _ => []
  | held, act f k, s =>
    view f s.world ++ events view held (k s.world) { s with world := f s.world }
  | held, lock l m k, s => if clashes held l m then [] else events view ((l, m) :: held) k s
  | held, unlock l m k, s => events view (held.erase (l, m)) k s
  | held, send u k, s =>
    events view held (k (s.chan.send u).1) { s with chan := (s.chan.send u).2 }

variable {view : (W → W) → W → List E}

section Events

variable (held : List (Guard L)) (s : Shared W U)

@[simp] theorem events_ret (a : α) : events view held (ret a : Task L W U α) s = [] := rfl

theorem events_bind (t : Task L W U α) (g : α → Task L W U β) :
    events view held (t >>= g) s = events view held t s ++
      (exec held t s).collect fun a held s ↦ events view held (g a) s := by
  induction t generalizing held s with
  | ret a => rfl
  | act f k ih => simp only [act_bind, events, exec, ih, List.append_assoc]
  | lock l m k ih =>
    simp only [lock_bind, events, exec]
    split
    · rfl
    · exact ih _ _
  | unlock l m k ih => simp only [unlock_bind, events, exec, ih]
  | send u k ih => simp only [send_bind, events, exec, ih]

@[simp] theorem events_bind_ret (t : Task L W U α) (f : α → β) :
    events view held (t >>= fun a ↦ ret (f a)) s = events view held t s := by
  rw [events_bind]
  cases exec held t s <;> simp

@[simp] theorem events_acquire (l : L) (m : Mode) :
    events view held (acquire l m : Task L W U Unit) s = [] := by
  rw [acquire, events]
  split <;> rfl

@[simp] theorem events_release (l : L) (m : Mode) :
    events view held (release l m : Task L W U Unit) s = [] := rfl

@[simp] theorem events_modify (f : W → W) :
    events view held (modify f : Task L W U Unit) s = view f s.world :=
  List.append_nil _

@[simp] theorem events_update (f : W → α × W) :
    events view held (update f : Task L W U α) s = view (fun w ↦ (f w).2) s.world :=
  List.append_nil _

end Events

/-- A task none of whose steps shows anything, wherever it takes them. -/
def Silent (view : (W → W) → W → List E) : Task L W U α → Prop
  | ret _ => True
  | act f k => (∀ w, view f w = []) ∧ ∀ w, Silent view (k w)
  | lock _ _ k | unlock _ _ k => Silent view k
  | send _ k => ∀ b, Silent view (k b)

namespace Silent

variable {t : Task L W U α} {g : α → Task L W U β}

omit [DecidableEq L] in
theorem bind (h : Silent view t) (hg : ∀ a, Silent view (g a)) : Silent view (t >>= g) := by
  induction t with
  | ret a => exact hg a
  | act f k ih => exact ⟨h.1, fun w ↦ ih w (h.2 w)⟩
  | lock l m k ih => exact ih h
  | unlock l m k ih => exact ih h
  | send u k ih => exact fun b ↦ ih b (h b)

theorem events (h : Silent view t) (held : List (Guard L)) (s : Shared W U) :
    events view held t s = [] := by
  induction t generalizing held s with
  | ret a => rfl
  | act f k ih => rw [Task.events, h.1, ih _ (h.2 _), List.append_nil]
  | lock l m k ih =>
    rw [Task.events]
    split
    · rfl
    · exact ih h _ _
  | unlock l m k ih => exact ih h _ _
  | send u k ih => exact ih _ (h _) _ _

omit [DecidableEq L]

theorem ret (a : α) : Silent view (.ret a : Task L W U α) := trivial

theorem acquire (l : L) (m : Mode) : Silent view (acquire l m : Task L W U Unit) := trivial

theorem release (l : L) (m : Mode) : Silent view (release l m : Task L W U Unit) := trivial

theorem modify {f : W → W} (h : ∀ w, view f w = []) : Silent view (modify f : Task L W U Unit) :=
  ⟨h, fun _ ↦ trivial⟩

theorem update {f : W → α × W} (h : ∀ w, view (fun w ↦ (f w).2) w = []) :
    Silent view (update f : Task L W U α) :=
  ⟨h, fun _ ↦ trivial⟩

theorem sendOn (u : U) : Silent view (sendOn u : Task L W U Bool) := fun _ ↦ trivial

theorem writing {l : L} {f : W → α × W} (h : ∀ w, view (fun w ↦ (f w).2) w = []) :
    Silent view (writing l f : Task L W U α) :=
  ⟨h, fun _ ↦ trivial⟩

theorem gets (h : ∀ w, view id w = []) (f : W → α) : Silent view (gets f : Task L W U α) :=
  ⟨h, fun _ ↦ trivial⟩

theorem reading (h : ∀ w, view id w = []) (l : L) (f : W → α) :
    Silent view (reading l f : Task L W U α) :=
  ⟨h, fun _ ↦ trivial⟩

end Silent

end Task

end Async
