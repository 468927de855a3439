import MetalBond.Async.Interleave

namespace Async

variable {ν ι L W U α β : Type} {I : Shared W U → Prop}

namespace Task

/-- Every step of the task leaves the data within `I` that it finds within `I`, and what the
task returns then satisfies `Post`. -/
def Keeps (I : Shared W U → Prop) (Post : α → Prop) : Task L W U α → Prop
  | ret a => Post a
  | act f k => ∀ s, I s → I { s with world := f s.world } ∧ Keeps I Post (k s.world)
  | lock _ _ k | unlock _ _ k => Keeps I Post k
  | send u k => ∀ s, I s → I { s with chan := (s.chan.send u).2 } ∧ ∀ b, Keeps I Post (k b)

namespace Keeps

variable {Post Post' : α → Prop} {Then : β → Prop} {t : Task L W U α} {g : α → Task L W U β}

theorem ret {a : α} (h : Post a) : Keeps I Post (.ret a : Task L W U α) := h

theorem bind (h : Keeps I Post t) (hg : ∀ a, Post a → Keeps I Then (g a)) :
    Keeps I Then (t >>= g) := by
  induction t with
  | ret a => exact hg a h
  | act f k ih => exact fun s hs ↦ ⟨(h s hs).1, ih _ (h s hs).2⟩
  | lock l m k ih => exact ih h
  | unlock l m k ih => exact ih h
  | send u k ih => exact fun s hs ↦ ⟨(h s hs).1, fun b ↦ ih b ((h s hs).2 b)⟩

theorem mono (h : Keeps I Post t) (hpost : ∀ a, Post a → Post' a) : Keeps I Post' t := by
  have hbind : Keeps I Post' (t >>= .ret) := h.bind fun a ha ↦ .ret (hpost a ha)
  rwa [bind_ret] at hbind

theorem andThen (h : Keeps I (fun _ ↦ True) t) (hg : ∀ a, Keeps I Then (g a)) :
    Keeps I Then (t >>= g) :=
  h.bind fun a _ ↦ hg a

theorem acquire (l : L) (m : Mode) : Keeps I (fun _ ↦ True) (acquire l m : Task L W U Unit) :=
  trivial

theorem release (l : L) (m : Mode) : Keeps I (fun _ ↦ True) (release l m : Task L W U Unit) :=
  trivial

theorem gets {f : W → α} (h : ∀ s, I s → Post (f s.world)) :
    Keeps I Post (gets f : Task L W U α) := fun s hs ↦ ⟨hs, h s hs⟩

theorem modify {f : W → W} (h : ∀ s : Shared W U, I s → I { s with world := f s.world }) :
    Keeps I (fun _ ↦ True) (modify f : Task L W U Unit) := fun s hs ↦ ⟨h s hs, trivial⟩

theorem update {f : W → α × W}
    (h : ∀ s : Shared W U, I s → I { s with world := (f s.world).2 } ∧ Post (f s.world).1) :
    Keeps I Post (update f : Task L W U α) := h

theorem sendOn {u : U} (h : ∀ s : Shared W U, I s → I { s with chan := (s.chan.send u).2 }) :
    Keeps I (fun _ ↦ True) (sendOn u : Task L W U Bool) := fun s hs ↦ ⟨h s hs, fun _ ↦ trivial⟩

theorem reading {l : L} {f : W → α} (h : ∀ s, I s → Post (f s.world)) :
    Keeps I Post (reading l f : Task L W U α) := fun s hs ↦ ⟨hs, h s hs⟩

theorem writing {l : L} {f : W → α × W}
    (h : ∀ s : Shared W U, I s → I { s with world := (f s.world).2 } ∧ Post (f s.world).1) :
    Keeps I Post (writing l f : Task L W U α) := h

theorem gets_any (f : W → α) : Keeps I (fun _ ↦ True) (Task.gets f : Task L W U α) :=
  .gets fun _ _ ↦ trivial

theorem reading_any (l : L) (f : W → α) :
    Keeps I (fun _ ↦ True) (Task.reading l f : Task L W U α) :=
  .reading fun _ _ ↦ trivial

theorem move (h : Keeps I Post t) {s s' : Shared W U} {e : Option (LockEvent L)}
    {t' : Task L W U α} (hmove : Move t s e t' s') (hs : I s) : I s' ∧ Keeps I Post t' := by
  cases hmove with
  | act f k => exact h s hs
  | lock l m k => exact ⟨hs, h⟩
  | unlock l m k => exact ⟨hs, h⟩
  | send u k => exact ⟨(h s hs).1, (h s hs).2 _⟩

end Keeps

end Task

open Async.Task (Keeps)

/-- Taking a message off the channel keeps the invariant, and so does what the tasks start
with it or on their own. -/
structure Upholds (I : Shared W U → Prop) (Starts : ι → Option U → Task L W U α → Prop) : Prop where
  recv : ∀ {s : Shared W U} {u ch}, I s → s.chan.recv = some (u, ch) → I { s with chan := ch }
  starts : ∀ {s : Shared W U} {i o t}, I s → (∀ u ∈ o, u ∈ s.chan.queue) → Starts i o t →
    Keeps I (fun _ ↦ True) t

namespace Pool

variable [DecidableEq ι] [DecidableEq L] {Starts : ι → Option U → Task L W U α → Prop}
variable {c c' : Pool ι L W U α}

omit [DecidableEq ι] [DecidableEq L] in
structure Kept (I : Shared W U → Prop) (c : Pool ι L W U α) : Prop where
  now : I c.shared
  later : ∀ i, Keeps I (fun _ ↦ True) (c.code i)

omit [DecidableEq ι] [DecidableEq L] in
theorem kept_of_idle (hidle : ∀ i, c.Idle i) (h : I c.shared) : Kept I c := by
  refine ⟨h, fun i ↦ ?_⟩
  obtain ⟨a, ha⟩ := hidle i
  rw [ha]
  exact .ret trivial

theorem Kept.step (h : Kept I c) (hstarts : Upholds I Starts) (hstep : Step Starts c c') :
    Kept I c' := by
  cases hstep with
  | move i e t s _ hmove =>
    obtain ⟨hs, ht⟩ := (h.later i).move hmove h.now
    exact ⟨hs, forall_code_set h.later ht i s⟩
  | start i t _ hstart =>
    have hnone : ∀ v ∈ (none : Option U), v ∈ c.shared.chan.queue := by simp
    exact ⟨h.now, forall_code_set h.later (hstarts.starts h.now hnone hstart) i _⟩
  | receive i u ch t _ hrecv hstart =>
    have hmem : ∀ v ∈ some u, v ∈ c.shared.chan.queue := by
      rintro v ⟨⟩
      rw [Channel.queue_of_recv hrecv]
      exact List.mem_cons_self
    exact ⟨hstarts.recv h.now hrecv,
      forall_code_set h.later (hstarts.starts h.now hmem hstart) i _⟩

theorem Kept.run (h : Kept I c) (hstarts : Upholds I Starts) (hrun : Run (Step Starts) c c') :
    Kept I c' :=
  hrun.invariant h fun _ _ h hstep ↦ h.step hstarts hstep

end Pool

namespace Network

variable [DecidableEq ν] [DecidableEq ι] [DecidableEq L]

/-- One of several nodes takes a step. What it may start depends on what the others have done
so far. -/
inductive Step (Starts : (ν → Shared W U) → ν → ι → Option U → Task L W U α → Prop)
    (c : ν → Pool ι L W U α) : (ν → Pool ι L W U α) → Prop
  | node (n : ν) (p : Pool ι L W U α) :
    Pool.Step (Starts (fun m ↦ (c m).shared) n) (c n) p → Step Starts c (Function.update c n p)

variable {Starts : (ν → Shared W U) → ν → ι → Option U → Task L W U α → Prop}
variable {Inv : ν → Shared W U → Prop} {c c' : ν → Pool ι L W U α}

/-- When each node keeps its invariant as long as all the others do, they all do. -/
theorem kept_of_run (h : ∀ n, (c n).Kept (Inv n))
    (hstarts : ∀ shared, (∀ m, Inv m (shared m)) → ∀ n, Upholds (Inv n) (Starts shared n))
    (hrun : Run (Step Starts) c c') : ∀ n, (c' n).Kept (Inv n) := by
  induction hrun with
  | refl => exact h
  | tail _ hstep ih =>
    cases hstep with
    | node m p hp =>
      intro n
      by_cases hn : n = m
      · subst hn
        rw [Function.update_self]
        exact (ih n).step (hstarts _ (fun m ↦ (ih m).now) n) hp
      · rw [Function.update_of_ne hn]
        exact ih n

/-- A run of one node is a run of the network, as what the others have done so far stays. -/
theorem run_node {S : ι → Option U → Task L W U α → Prop} {n : ν} {p : Pool ι L W U α}
    (hS : ∀ shared, (∀ m, m ≠ n → shared m = (c m).shared) →
      ∀ i o t, S i o t → Starts shared n i o t) (hrun : Run (Pool.Step S) (c n) p) :
    Run (Step Starts) c (Function.update c n p) := by
  induction hrun with
  | refl => rw [Function.update_eq_self]
  | @tail p p' _ hstep ih =>
    refine ih.snoc ?_
    have hothers : ∀ m, m ≠ n → (Function.update c n p m).shared = (c m).shared :=
      fun m hm ↦ by rw [Function.update_of_ne hm]
    have hp : Pool.Step (Starts (fun m ↦ (Function.update c n p m).shared) n)
        (Function.update c n p n) p' := by
      rw [Function.update_self]
      exact hstep.mono (hS _ hothers)
    have hnode : Step Starts (Function.update c n p) _ := .node n p' hp
    rwa [Function.update_idem] at hnode

end Network

end Async
