import MetalBond.Async.Channel

namespace Async

inductive Mode
  | read
  | write
  deriving DecidableEq

def Mode.conflicts : Mode → Mode → Bool
  | .read, .read => false
  | _, _ => true

theorem Mode.conflicts_comm (m m' : Mode) : m.conflicts m' = m'.conflicts m := by
  cases m <;> cases m' <;> rfl

/-- The code of an asynchronous task over data `W`, with reader-writer locks named by `L`
and one channel of messages `U` on which a send waits for a free slot. -/
inductive Task (L W U α : Type) : Type
  | ret (a : α)
  /-- One indivisible step on the data; the rest of the task sees the data before it. -/
  | act (f : W → W) (k : W → Task L W U α)
  | lock (l : L) (m : Mode) (k : Task L W U α)
  | unlock (l : L) (m : Mode) (k : Task L W U α)
  /-- The rest of the task is told whether the channel took the message. -/
  | send (u : U) (k : Bool → Task L W U α)

namespace Task

variable {L W U α β γ : Type}

def bind : Task L W U α → (α → Task L W U β) → Task L W U β
  | ret a, g => g a
  | act f k, g => act f fun w ↦ (k w).bind g
  | lock l m k, g => lock l m (k.bind g)
  | unlock l m k, g => unlock l m (k.bind g)
  | send u k, g => send u fun b ↦ (k b).bind g

instance : Monad (Task L W U) where
  pure := ret
  bind := bind

@[simp] theorem pure_eq (a : α) : (pure a : Task L W U α) = ret a := rfl

@[simp] theorem ret_bind (a : α) (g : α → Task L W U β) : ret a >>= g = g a := rfl

@[simp] theorem act_bind (f : W → W) (k : W → Task L W U α) (g : α → Task L W U β) :
    act f k >>= g = act f fun w ↦ k w >>= g := rfl

@[simp] theorem lock_bind (l : L) (m : Mode) (k : Task L W U α) (g : α → Task L W U β) :
    lock l m k >>= g = lock l m (k >>= g) := rfl

@[simp] theorem unlock_bind (l : L) (m : Mode) (k : Task L W U α) (g : α → Task L W U β) :
    unlock l m k >>= g = unlock l m (k >>= g) := rfl

@[simp] theorem send_bind (u : U) (k : Bool → Task L W U α) (g : α → Task L W U β) :
    send u k >>= g = send u fun b ↦ k b >>= g := rfl

@[simp] theorem bind_ret (t : Task L W U α) : t >>= ret = t := by
  induction t with
  | ret a => rfl
  | act f k ih => simp only [act_bind, ih]
  | lock l m k ih => simp only [lock_bind, ih]
  | unlock l m k ih => simp only [unlock_bind, ih]
  | send u k ih => simp only [send_bind, ih]

theorem bind_assoc (t : Task L W U α) (g : α → Task L W U β) (h : β → Task L W U γ) :
    t >>= g >>= h = t >>= fun a ↦ g a >>= h := by
  induction t with
  | ret a => rfl
  | act f k ih => simp only [act_bind, ih]
  | lock l m k ih => simp only [lock_bind, ih]
  | unlock l m k ih => simp only [unlock_bind, ih]
  | send u k ih => simp only [send_bind, ih]

theorem ne_act (f : W → W) (k : W → Task L W U α) (w : W) : k w ≠ act f k := by
  intro h
  have hne : ∀ t : Task L W U α, t = k w → t ≠ act f k := by
    intro t
    induction t with
    | act f' k' ih =>
      rintro - ⟨⟩
      exact ih w rfl h
    | _ => intro _ h; cases h
  exact hne (k w) rfl h

def gets (f : W → α) : Task L W U α := act id fun w ↦ ret (f w)

def modify (f : W → W) : Task L W U Unit := act f fun _ ↦ ret ()

def update (f : W → α × W) : Task L W U α := act (fun w ↦ (f w).2) fun w ↦ ret (f w).1

def acquire (l : L) (m : Mode) : Task L W U Unit := lock l m (ret ())

def release (l : L) (m : Mode) : Task L W U Unit := unlock l m (ret ())

def sendOn (u : U) : Task L W U Bool := send u ret

/-- A value read under a guard that lives for this one expression. -/
def reading (l : L) (f : W → α) : Task L W U α := do
  acquire l .read
  let a ← gets f
  release l .read
  return a

def writing (l : L) (f : W → α × W) : Task L W U α := do
  acquire l .write
  let a ← update f
  release l .write
  return a

end Task

structure Shared (W U : Type) where
  world : W
  chan : Channel U

abbrev Guard (L : Type) := L × Mode

def clashes {L : Type} [DecidableEq L] (held : List (Guard L)) (l : L) (m : Mode) : Bool :=
  held.any fun g ↦ decide (g.1 = l) && g.2.conflicts m

section Clashes

variable {L : Type} [DecidableEq L] (held : List (Guard L)) (l : L) (m : Mode)

@[simp] theorem clashes_nil : clashes [] l m = false := rfl

@[simp] theorem clashes_cons (g : Guard L) :
    clashes (g :: held) l m = (decide (g.1 = l) && g.2.conflicts m || clashes held l m) := rfl

end Clashes

/-- How a task that runs undisturbed ends: with a result, or waiting forever for a guard
that its own guards exclude. -/
inductive Outcome (L W U α : Type)
  | done (a : α) (held : List (Guard L)) (s : Shared W U)
  | blocked (l : L) (m : Mode) (s : Shared W U)

namespace Outcome

variable {L W U α β : Type}

def shared : Outcome L W U α → Shared W U
  | done _ _ s | blocked _ _ s => s

def andThen : Outcome L W U α → (α → List (Guard L) → Shared W U → Outcome L W U β) →
    Outcome L W U β
  | done a held s, g => g a held s
  | blocked l m s, _ => blocked l m s

@[simp] theorem done_andThen (a : α) (held : List (Guard L)) (s : Shared W U)
    (g : α → List (Guard L) → Shared W U → Outcome L W U β) :
    (done a held s).andThen g = g a held s := rfl

@[simp] theorem blocked_andThen (l : L) (m : Mode) (s : Shared W U)
    (g : α → List (Guard L) → Shared W U → Outcome L W U β) :
    (blocked l m s).andThen g = blocked l m s := rfl

@[simp] theorem shared_done (a : α) (held : List (Guard L)) (s : Shared W U) :
    (done a held s).shared = s := rfl

@[simp] theorem shared_blocked (l : L) (m : Mode) (s : Shared W U) :
    (blocked l m s : Outcome L W U α).shared = s := rfl

end Outcome

namespace Task

variable {L W U α β : Type} [DecidableEq L]

/-- Run a task to its end while no other task takes a step. -/
def exec : List (Guard L) → Task L W U α → Shared W U → Outcome L W U α
  | held, ret a, s => .done a held s
  | held, act f k, s => exec held (k s.world) { s with world := f s.world }
  | held, lock l m k, s =>
    if clashes held l m then .blocked l m s else exec ((l, m) :: held) k s
  | held, unlock l m k, s => exec (held.erase (l, m)) k s
  | held, send u k, s => exec held (k (s.chan.send u).1) { s with chan := (s.chan.send u).2 }

section Exec

variable (held : List (Guard L)) (s : Shared W U)

@[simp] theorem exec_ret (a : α) : exec held (ret a : Task L W U α) s = .done a held s := rfl

theorem exec_bind (t : Task L W U α) (g : α → Task L W U β) :
    exec held (t >>= g) s = (exec held t s).andThen fun a held s ↦ exec held (g a) s := by
  induction t generalizing held s with
  | ret a => rfl
  | act f k ih => simp only [act_bind, exec, ih]
  | lock l m k ih =>
    simp only [lock_bind, exec]
    split
    · rfl
    · exact ih _ _
  | unlock l m k ih => simp only [unlock_bind, exec, ih]
  | send u k ih => simp only [send_bind, exec, ih]

@[simp] theorem exec_gets (f : W → α) :
    exec held (gets f : Task L W U α) s = .done (f s.world) held s := rfl

@[simp] theorem exec_modify (f : W → W) :
    exec held (modify f : Task L W U Unit) s = .done () held { s with world := f s.world } := rfl

@[simp] theorem exec_update (f : W → α × W) :
    exec held (update f : Task L W U α) s =
      .done (f s.world).1 held { s with world := (f s.world).2 } := rfl

theorem exec_acquire (l : L) (m : Mode) :
    exec held (acquire l m : Task L W U Unit) s =
      if clashes held l m then .blocked l m s else .done () ((l, m) :: held) s := rfl

@[simp] theorem exec_release (l : L) (m : Mode) :
    exec held (release l m : Task L W U Unit) s = .done () (held.erase (l, m)) s := rfl

@[simp] theorem exec_sendOn (u : U) :
    exec held (sendOn u : Task L W U Bool) s =
      .done (s.chan.send u).1 held { s with chan := (s.chan.send u).2 } := rfl

theorem exec_reading {l : L} (h : clashes held l .read = false) (f : W → α) :
    exec held (reading l f : Task L W U α) s = .done (f s.world) held s := by
  simp [reading, exec_bind, exec_acquire, h]

theorem exec_writing {l : L} (h : clashes held l .write = false) (f : W → α × W) :
    exec held (writing l f : Task L W U α) s =
      .done (f s.world).1 held { s with world := (f s.world).2 } := by
  simp [writing, exec_bind, exec_acquire, h]

end Exec

end Task

end Async
