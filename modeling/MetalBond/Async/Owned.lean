import MetalBond.Async.Finish
import MetalBond.Async.Protocol

namespace Async

variable {V L W U α β : Type}

/-- A part of the data that nothing but one task changes. -/
def Same (view : W → V) (s s' : Shared W U) : Prop := view s'.world = view s.world

instance (view : W → V) : Std.Refl (Same (U := U) view) := ⟨fun _ ↦ rfl⟩

/-- The task that the part belongs to knows it, and does with it what it likes. -/
def owner (view : W → V) : Protocol V L W U where
  Knows v _ s := view s.world = v
  Step _ _ _ v' s' := view s'.world = v'
  Idle _ := True
  Start _ _ _ := True

namespace Task

variable {view : W → V} {v v' : V}

theorem quiet_owner : Quiet (owner (L := L) (U := U) view) v (Same view) fun _ ↦ True where
  act hs hsame := hsame.trans hs
  acquire hs _ := hs
  release hs _ := hs

theorem follows_owner {Post : V → Unit → Prop} {f : W → W}
    (h : ∀ w, view w = v → view (f w) = v') (hpost : Post v' ()) :
    Follows (owner (L := L) (U := U) view) Post (modify f) v :=
  .modify fun s hs ↦ ⟨v', h s.world hs, hpost⟩

theorem follows_owner_writing {Post : V → α → Prop} {l : L} {f : W → α × W}
    (h : ∀ w, view w = v → view (f w).2 = v') (hpost : ∀ a, Post v' a) :
    Follows (owner (U := U) view) Post (writing l f) v := by
  have hquiet (v : V) := @quiet_owner V L W U view v
  have hupdate : Follows (owner (L := L) (U := U) view) (fun v _ ↦ v = v') (update f) v :=
    .update fun s hs ↦ ⟨v', h s.world hs, rfl⟩
  refine ((hquiet v).acquires trivial).andThen fun _ ↦ hupdate.andThen fun a ↦ ?_
  exact ((hquiet v').releases trivial).andThen fun _ ↦ .ret (hpost a)

theorem follows_owner_update {Q : α → Prop} {f : W → α × W}
    (h : ∀ w, view w = v → view (f w).2 = v' ∧ Q (f w).1) :
    Follows (owner (L := L) (U := U) view) (fun v'' a ↦ v'' = v' ∧ Q a) (update f) v :=
  .update fun s hs ↦ ⟨v', (h s.world hs).1, rfl, (h s.world hs).2⟩

theorem follows_owner_gets {Q : α → Prop} {f : W → α} (h : ∀ w, view w = v → Q (f w)) :
    Follows (owner (L := L) (U := U) view) (fun v' a ↦ v' = v ∧ Q a) (gets f) v :=
  .gets fun s hs ↦ ⟨v, hs, rfl, h s.world hs⟩

theorem follows_owner_reading {Q : α → Prop} {l : L} {f : W → α} (h : ∀ w, view w = v → Q (f w)) :
    Follows (owner (U := U) view) (fun v' a ↦ v' = v ∧ Q a) (reading l f) v := by
  refine (quiet_owner.acquires trivial).andThen fun _ ↦ (follows_owner_gets h).bind fun v' a ha ↦ ?_
  exact (quiet_owner.releases trivial).andThen fun _ ↦ .ret ha

/-- What the owner leaves when it runs to its end is what its protocol says. -/
theorem Follows.finish {Post : V → α → Prop} {t : Task L W U α} {s : Shared W U}
    (h : Follows (owner view) Post t v) (hs : view s.world = v) :
    Post (view (t.finish s).2.world) (t.finish s).1 := by
  induction t generalizing s v with
  | ret a =>
    subst hs
    exact h
  | act f k ih =>
    obtain ⟨v', hv', hk⟩ := h s hs
    exact ih s.world hk hv'
  | lock l m k ih =>
    obtain ⟨v', hv', hk⟩ := h s hs
    exact ih hk hv'
  | unlock l m k ih =>
    obtain ⟨v', hv', hk⟩ := h s hs
    exact ih hk hv'
  | send u k ih =>
    obtain ⟨v', hv', hk⟩ := h s hs
    exact ih _ hk hv'

end Task

namespace Pool

open Async.Task (Confined)

variable {ι : Type} [DecidableEq ι] {view : W → V} {Good : V → Prop} {i : ι}
variable {Starts : ι → Option U → Task L W U α → Prop}

omit [DecidableEq ι] in
/-- The owner leaves the part as `Good` asks whenever it has returned, and all the others leave
it alone. -/
structure Owned (view : W → V) (Good : V → Prop) (i : ι) (c : Pool ι L W U α) : Prop where
  own : Task.Follows (owner view) (fun v _ ↦ Good v) (c.code i) (view c.shared.world)
  others : ∀ j, j ≠ i → Confined (Same view) (c.code j)

omit [DecidableEq ι] in
theorem Owned.good {c : Pool ι L W U α} (h : Owned view Good i c) (hidle : c.Idle i) :
    Good (view c.shared.world) := by
  obtain ⟨a, ha⟩ := hidle
  have hown := h.own
  rwa [ha] at hown

/-- The code that starts fits the part of the task: the owner finds the data good and leaves
it so. -/
structure Respects (view : W → V) (Good : V → Prop) (i : ι)
    (Starts : ι → Option U → Task L W U α → Prop) : Prop where
  own : ∀ o t v, Starts i o t → Good v → Task.Follows (owner view) (fun v _ ↦ Good v) t v
  others : ∀ j o t, j ≠ i → Starts j o t → Confined (Same view) t

theorem Owned.set_own {Good' : V → Prop} {c : Pool ι L W U α} (h : Owned view Good i c)
    {p : Proc L W U α} {s : Shared W U}
    (hp : Task.Follows (owner view) (fun v _ ↦ Good' v) p.code (view s.world)) :
    Owned view Good' i (c.set i p s) := by
  refine ⟨?_, fun j hj ↦ ?_⟩
  · rwa [code_set, Function.update_self]
  · rw [code_set, Function.update_of_ne hj]
    exact h.others j hj

theorem Owned.set_other {c : Pool ι L W U α} (h : Owned view Good i c) {j : ι} (hj : j ≠ i)
    {p : Proc L W U α} {s : Shared W U} (hp : Confined (Same view) p.code)
    (hs : Same view c.shared s) : Owned view Good i (c.set j p s) := by
  refine ⟨?_, fun k hk ↦ ?_⟩
  · rw [code_set, Function.update_of_ne hj.symm]
    exact hs ▸ h.own
  · rw [code_set]
    by_cases hkj : k = j
    · subst hkj
      rwa [Function.update_self]
    · rw [Function.update_of_ne hkj]
      exact h.others k hk

theorem Owned.start {c : Pool ι L W U α} (h : Owned view Good i c)
    (hstarts : Respects view Good i Starts) {j : ι} {o : Option U} {t : Task L W U α}
    {held : List (Guard L)} {s : Shared W U} (hidle : c.Idle j) (hstart : Starts j o t)
    (hs : s.world = c.shared.world) : Owned view Good i (c.set j ⟨held, t⟩ s) := by
  by_cases hj : j = i
  · subst hj
    refine h.set_own ?_
    rw [hs]
    exact hstarts.own o t _ hstart (h.good hidle)
  · exact h.set_other hj (hstarts.others j o t hj hstart) (congrArg view hs)

variable [DecidableEq L]

theorem Owned.step {c c' : Pool ι L W U α} (h : Owned view Good i c)
    (hstarts : Respects view Good i Starts) (hstep : Step Starts c c') : Owned view Good i c' := by
  cases hstep with
  | move j e t s hallowed hmove =>
    by_cases hj : j = i
    · subst hj
      obtain ⟨v', hv', ht⟩ := h.own.move hmove rfl
      exact h.set_own (hv' ▸ ht)
    · obtain ⟨hsame, ht⟩ := (h.others j hj).move hmove
      exact h.set_other hj ht hsame
  | start j t hidle hstart => exact h.start hstarts hidle hstart rfl
  | receive j u ch t hidle hrecv hstart => exact h.start hstarts hidle hstart rfl

theorem Owned.run {c c' : Pool ι L W U α} (h : Owned view Good i c)
    (hstarts : Respects view Good i Starts) (hrun : Run (Step Starts) c c') :
    Owned view Good i c' :=
  hrun.invariant h fun _ _ h hstep ↦ h.step hstarts hstep

end Pool

end Async
