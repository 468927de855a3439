import MetalBond.Async.Frame
import MetalBond.Async.Guards
import MetalBond.Async.Run
import Mathlib.Data.List.Pairwise
import Mathlib.Logic.Equiv.Basic

namespace Async

variable {ι L W U α : Type}

namespace Task

/-- One step of a task; a step that leaves the locks alone has no event. -/
inductive Move : Task L W U α → Shared W U → Option (LockEvent L) →
    Task L W U α → Shared W U → Prop
  | act (f : W → W) (k : W → Task L W U α) (s : Shared W U) :
    Move (.act f k) s none (k s.world) { s with world := f s.world }
  | lock (l : L) (m : Mode) (k : Task L W U α) (s : Shared W U) :
    Move (.lock l m k) s (some (.acquire l m)) k s
  | unlock (l : L) (m : Mode) (k : Task L W U α) (s : Shared W U) :
    Move (.unlock l m k) s (some (.release l m)) k s
  | send (u : U) (k : Bool → Task L W U α) (s : Shared W U) :
    Move (.send u k) s none (k (s.chan.send u).1) { s with chan := (s.chan.send u).2 }

theorem Move.chan {t t' : Task L W U α} {s s' : Shared W U} {e : Option (LockEvent L)}
    (h : Move t s e t' s') : s'.chan = s.chan ∨ ∃ u, s'.chan = s.chan.push u := by
  cases h with
  | send u k =>
    by_cases hc : s.chan.closed
    · exact .inl (by rw [Channel.send, if_pos hc])
    · exact .inr ⟨u, by rw [Channel.send_of_open (Bool.eq_false_iff.mpr hc)]⟩
  | _ => exact .inl rfl

theorem Confined.move {R : Shared W U → Shared W U → Prop} [Std.Refl R] {t t' : Task L W U α}
    {s s' : Shared W U} {e : Option (LockEvent L)} (h : Confined R t) (hmove : Move t s e t' s') :
    R s s' ∧ Confined R t' := by
  cases hmove with
  | act f k => exact ⟨h.1 s, h.2 s.world⟩
  | lock l m k => exact ⟨Std.Refl.refl s, h⟩
  | unlock l m k => exact ⟨Std.Refl.refl s, h⟩
  | send u k => exact ⟨h.1 s, h.2 _⟩

end Task

def Compatible (g g' : Guard L) : Prop := g.1 = g'.1 → g.2.conflicts g'.2 = false

theorem Compatible.symm {g g' : Guard L} (h : Compatible g g') : Compatible g' g := fun he ↦ by
  rw [Mode.conflicts_comm]
  exact h he.symm

instance : Std.Symm (Compatible (L := L)) := ⟨fun _ _ h ↦ h.symm⟩

structure Exclusive (held : ι → List (Guard L)) : Prop where
  own : ∀ i, (held i).Pairwise Compatible
  others : ∀ i j, i ≠ j → ∀ g ∈ held i, ∀ g' ∈ held j, Compatible g g'

theorem exclusive_nil : Exclusive fun _ : ι ↦ ([] : List (Guard L)) :=
  ⟨fun _ ↦ .nil, by simp⟩

theorem Exclusive.eq_of_write {held : ι → List (Guard L)} (h : Exclusive held) {i j : ι} {l : L}
    {m : Mode} (hi : (l, Mode.write) ∈ held i) (hj : (l, m) ∈ held j) : i = j := by
  by_contra hne
  have hcompatible := h.others i j hne _ hi _ hj rfl
  cases m <;> cases hcompatible

theorem Exclusive.sublist {held held' : ι → List (Guard L)} (h : Exclusive held)
    (hsub : ∀ i, (held' i).Sublist (held i)) : Exclusive held' :=
  ⟨fun i ↦ (h.own i).sublist (hsub i), fun i j hne g hg g' hg' ↦
    h.others i j hne g ((hsub i).subset hg) g' ((hsub j).subset hg')⟩

theorem Exclusive.notMem_write {held : ι → List (Guard L)} (h : Exclusive held) {i : ι} {l : L}
    (hi : (l, Mode.read) ∈ held i) (j : ι) : (l, Mode.write) ∉ held j := by
  intro hj
  obtain rfl := h.eq_of_write hj hi
  have hcompatible := (h.own j).forall hj hi (by simp)
  cases hcompatible rfl

section Locks

variable [DecidableEq L]

def heldAfter : Option (Task.LockEvent L) → List (Guard L) → List (Guard L)
  | none, held => held
  | some (.acquire l m), held => (l, m) :: held
  | some (.release l m), held => held.erase (l, m)

/-- A lock is granted when no guard excludes the request, and released at any time. -/
def Allows (held : ι → List (Guard L)) : Option (Task.LockEvent L) → Prop
  | some (.acquire l m) => ∀ i, clashes (held i) l m = false
  | _ => True

theorem clashes_eq_false {held : List (Guard L)} {l : L} {m : Mode} :
    clashes held l m = false ↔ ∀ g ∈ held, Compatible g (l, m) := by
  simp [clashes, Compatible]

theorem mem_heldAfter {held : List (Guard L)} {e : Option (Task.LockEvent L)} {g : Guard L}
    (h : g ∈ heldAfter e held) : g ∈ held ∨ e = some (.acquire g.1 g.2) := by
  match e with
  | none => exact Or.inl h
  | some (.acquire l m) =>
    rcases List.mem_cons.mp h with rfl | h
    · exact Or.inr rfl
    · exact Or.inl h
  | some (.release l m) => exact Or.inl (List.mem_of_mem_erase h)

theorem Exclusive.step [DecidableEq ι] {held : ι → List (Guard L)} (h : Exclusive held)
    {e : Option (Task.LockEvent L)} (he : Allows held e) (i : ι) :
    Exclusive (Function.update held i (heldAfter e (held i))) := by
  have hgranted : ∀ g, e = some (.acquire g.1 g.2) → ∀ j, ∀ g' ∈ held j, Compatible g' g := by
    rintro g rfl j
    exact clashes_eq_false.mp (he j)
  refine ⟨fun j ↦ ?_, fun j j' hne g hg g' hg' ↦ ?_⟩
  · by_cases hj : j = i
    · subst hj
      rw [Function.update_self]
      rcases e with _ | ⟨l, m⟩ | ⟨l, m⟩
      · exact h.own j
      · exact List.pairwise_cons.mpr
          ⟨fun g hg ↦ (hgranted (l, m) rfl j g hg).symm, h.own j⟩
      · exact (h.own j).sublist List.erase_sublist
    · rw [Function.update_of_ne hj]
      exact h.own j
  · by_cases hj : j = i
    · subst hj
      rw [Function.update_self] at hg
      rw [Function.update_of_ne hne.symm] at hg'
      rcases mem_heldAfter hg with hg | hg
      · exact h.others j j' hne g hg g' hg'
      · exact (hgranted g hg j' g' hg').symm
    · rw [Function.update_of_ne hj] at hg
      by_cases hj' : j' = i
      · subst hj'
        rw [Function.update_self] at hg'
        rcases mem_heldAfter hg' with hg' | hg'
        · exact h.others j j' hne g hg g' hg'
        · exact hgranted g' hg' j g hg
      · rw [Function.update_of_ne hj'] at hg'
        exact h.others j j' hne g hg g' hg'

theorem Exclusive.notMem_erase {held : ι → List (Guard L)} (h : Exclusive held) (i : ι) (l : L) :
    (l, Mode.write) ∉ (held i).erase (l, Mode.write) := by
  intro hmem
  have hperm := List.perm_cons_erase (List.mem_of_mem_erase hmem)
  have hpair := (hperm.pairwise_iff fun hc ↦ Compatible.symm hc).mp (h.own i)
  cases (List.pairwise_cons.mp hpair).1 _ hmem rfl

end Locks

structure Proc (L W U α : Type) where
  held : List (Guard L)
  code : Task L W U α

structure Pool (ι L W U α : Type) where
  procs : ι → Proc L W U α
  shared : Shared W U

namespace Pool

def held (c : Pool ι L W U α) (i : ι) : List (Guard L) := (c.procs i).held

def code (c : Pool ι L W U α) (i : ι) : Task L W U α := (c.procs i).code

def Idle (c : Pool ι L W U α) (i : ι) : Prop := ∃ a, c.code i = .ret a

variable [DecidableEq ι]

def set (c : Pool ι L W U α) (i : ι) (p : Proc L W U α) (s : Shared W U) : Pool ι L W U α :=
  ⟨Function.update c.procs i p, s⟩

/-- Any task takes one step; one that has returned starts anew, as `Starts` says, on its own
or with the next message of the channel. -/
inductive Step [DecidableEq L] (Starts : ι → Option U → Task L W U α → Prop) (c : Pool ι L W U α) :
    Pool ι L W U α → Prop
  | move (i : ι) (e : Option (Task.LockEvent L)) (t : Task L W U α) (s : Shared W U)
    (hallowed : Allows c.held e) (h : Task.Move (c.code i) c.shared e t s) :
    Step Starts c (c.set i ⟨heldAfter e (c.held i), t⟩ s)
  | start (i : ι) (t : Task L W U α) (hidle : c.Idle i) (h : Starts i none t) :
    Step Starts c (c.set i ⟨c.held i, t⟩ c.shared)
  | receive (i : ι) (u : U) (ch : Channel U) (t : Task L W U α) (hidle : c.Idle i)
    (hrecv : c.shared.chan.recv = some (u, ch)) (h : Starts i (some u) t) :
    Step Starts c (c.set i ⟨c.held i, t⟩ { c.shared with chan := ch })

section Set

variable (c : Pool ι L W U α) (i : ι) (p : Proc L W U α) (s : Shared W U)

@[simp] theorem shared_set : (c.set i p s).shared = s := rfl

@[simp] theorem held_set : (c.set i p s).held = Function.update c.held i p.held := by
  funext j
  by_cases hj : j = i
  · subst hj
    simp [held, set]
  · simp [held, set, hj]

@[simp] theorem code_set : (c.set i p s).code = Function.update c.code i p.code := by
  funext j
  by_cases hj : j = i
  · subst hj
    simp [code, set]
  · simp [code, set, hj]

theorem idle_set_of_ne {j : ι} (h : j ≠ i) : (c.set i p s).Idle j ↔ c.Idle j := by
  unfold Idle
  rw [code_set, Function.update_of_ne h]

theorem forall_code_set {c : Pool ι L W U α} {Q : Task L W U α → Prop} (h : ∀ j, Q (c.code j))
    {p : Proc L W U α} (hp : Q p.code) (i : ι) (s : Shared W U) (j : ι) :
    Q ((c.set i p s).code j) := by
  rw [code_set]
  by_cases hj : j = i
  · subst hj
    rwa [Function.update_self]
  · rw [Function.update_of_ne hj]
    exact h j

theorem unguarded_set {c : Pool ι L W U α} (h : ∀ j, c.held j = []) (i : ι) (t : Task L W U α)
    (s : Shared W U) (j : ι) : (c.set i ⟨[], t⟩ s).held j = [] := by
  rw [held_set]
  by_cases hj : j = i
  · subst hj
    rw [Function.update_self]
  · rw [Function.update_of_ne hj, h j]

@[simp] theorem set_set (p' : Proc L W U α) (s' : Shared W U) :
    (c.set i p s).set i p' s' = c.set i p' s' := by
  simp [set]

def Apart (i : ι) (c c' : Pool ι L W U α) : Prop := ∀ j, j ≠ i → c'.procs j = c.procs j

theorem apart_set (p' : Proc L W U α) (s' : Shared W U) :
    Apart i (c.set i p s) (c.set i p' s') := fun j hj ↦ by
  simp [set, hj]

theorem set_eq_self : c.set i ⟨c.held i, c.code i⟩ c.shared = c := by
  have hproc : (⟨c.held i, c.code i⟩ : Proc L W U α) = c.procs i := rfl
  rw [hproc, set, Function.update_eq_self]

end Set

variable [DecidableEq L] {Starts : ι → Option U → Task L W U α → Prop} {c : Pool ι L W U α}
variable {i : ι} {held held' : List (Guard L)} {s s' : Shared W U}

theorem Step.confined {R : Shared W U → Shared W U → Prop} [Std.Refl R] {c' : Pool ι L W U α}
    (hstep : Step Starts c c') (hcode : ∀ i, Task.Confined R (c.code i))
    (hstarts : ∀ i o t, Starts i o t → Task.Confined R t)
    (hrecv : ∀ (s : Shared W U) ch, R s { s with chan := ch }) :
    R c.shared c'.shared ∧ ∀ i, Task.Confined R (c'.code i) := by
  cases hstep with
  | move i e t s _ hmove =>
    obtain ⟨hR, ht⟩ := (hcode i).move hmove
    exact ⟨hR, forall_code_set hcode ht i s⟩
  | start i t _ hstart =>
    exact ⟨Std.Refl.refl _, forall_code_set hcode (hstarts i none t hstart) i _⟩
  | receive i u ch t _ _ hstart =>
    exact ⟨hrecv .., forall_code_set hcode (hstarts i (some u) t hstart) i _⟩

theorem run_confined {R : Shared W U → Shared W U → Prop} [Std.Refl R] {c' : Pool ι L W U α}
    (hrun : Run (Step Starts) c c') (hcode : ∀ i, Task.Confined R (c.code i))
    (hstarts : ∀ i o t, Starts i o t → Task.Confined R t)
    (hrecv : ∀ (s : Shared W U) ch, R s { s with chan := ch }) :
    Run (fun d d' ↦ Step Starts d d' ∧ R d.shared d'.shared) c c' := by
  refine (hrun.along hcode fun _ _ h hstep ↦ (hstep.confined h hstarts hrecv).2).mono ?_
  exact fun _ _ h ↦ ⟨h.1, (h.1.confined h.2 hstarts hrecv).1⟩

theorem Step.mono {Starts' : ι → Option U → Task L W U α → Prop} {c' : Pool ι L W U α}
    (hstep : Step Starts c c') (h : ∀ i o t, Starts i o t → Starts' i o t) : Step Starts' c c' := by
  cases hstep with
  | move i e t s hallowed hmove => exact .move i e t s hallowed hmove
  | start i t hidle hstart => exact .start i t hidle (h i none t hstart)
  | receive i u ch t hidle hrecv hstart => exact .receive i u ch t hidle hrecv (h i (some u) t hstart)

section Rename

variable {κ : Type} [DecidableEq κ] (e : ι ≃ κ)

/-- The same tasks under other names. -/
def rename (c : Pool ι L W U α) : Pool κ L W U α := ⟨c.procs ∘ e.symm, c.shared⟩

omit [DecidableEq L] in
theorem rename_set (p : Proc L W U α) :
    (c.set i p s).rename e = (c.rename e).set (e i) p s := by
  have hprocs := Function.update_comp_equiv c.procs e.symm i p
  rw [Equiv.symm_symm] at hprocs
  simp only [rename, set, hprocs]

/-- The names of the tasks do not matter. -/
theorem Step.rename {c' : Pool ι L W U α} (hstep : Step Starts c c') :
    Step (fun j ↦ Starts (e.symm j)) (c.rename e) (c'.rename e) := by
  have hprocs (i : ι) : (c.rename e).procs (e i) = c.procs i :=
    congrArg c.procs (e.symm_apply_apply i)
  have hheld (i : ι) : (c.rename e).held (e i) = c.held i := congrArg Proc.held (hprocs i)
  have hcode (i : ι) : (c.rename e).code (e i) = c.code i := congrArg Proc.code (hprocs i)
  cases hstep with
  | move i event t s hallowed hmove =>
    rw [rename_set, ← hheld i]
    refine .move (e i) event t s ?_ ((hcode i).symm ▸ hmove)
    cases event with
    | none => trivial
    | some event =>
      cases event with
      | acquire l m => exact fun j ↦ hallowed (e.symm j)
      | release l m => trivial
  | start i t hidle hstart =>
    rw [rename_set, ← hheld i]
    refine .start (e i) t ?_ ?_
    · rwa [Idle, hcode i]
    · rwa [e.symm_apply_apply]
  | receive i u ch t hidle hrecv hstart =>
    rw [rename_set, ← hheld i]
    refine .receive (e i) u ch t ?_ hrecv ?_
    · rwa [Idle, hcode i]
    · rwa [e.symm_apply_apply]

end Rename

theorem Step.code {c' : Pool ι L W U α} (hstep : Step Starts c c') (j : ι) :
    c'.code j = c.code j ∨ (∃ e, Task.Move (c.code j) c.shared e (c'.code j) c'.shared) ∨
      ∃ o, c.Idle j ∧ Starts j o (c'.code j) := by
  cases hstep with
  | move i e t s _ hmove =>
    by_cases hj : j = i
    · subst hj
      exact .inr (.inl ⟨e, by simpa using hmove⟩)
    · exact .inl (by rw [code_set, Function.update_of_ne hj])
  | start i t hidle hstart =>
    by_cases hj : j = i
    · subst hj
      exact .inr (.inr ⟨none, hidle, by simpa using hstart⟩)
    · exact .inl (by rw [code_set, Function.update_of_ne hj])
  | receive i u ch t hidle _ hstart =>
    by_cases hj : j = i
    · subst hj
      exact .inr (.inr ⟨some u, hidle, by simpa using hstart⟩)
    · exact .inl (by rw [code_set, Function.update_of_ne hj])

theorem Step.idle {c' : Pool ι L W U α} (hstep : Step Starts c c') {j : ι}
    (hnone : ∀ o t, ¬ Starts j o t) (hidle : c.Idle j) : c'.Idle j := by
  obtain ⟨a, ha⟩ := hidle
  rcases hstep.code j with heq | ⟨e, hmove⟩ | ⟨o, -, hstart⟩
  · exact ⟨a, heq.trans ha⟩
  · rw [ha] at hmove
    cases hmove
  · exact absurd hstart (hnone o _)

theorem step_set (hothers : ∀ j, j ≠ i → c.held j = []) {e : Option (Task.LockEvent L)}
    {t t' : Task L W U α} (hmove : Task.Move t s e t' s')
    (hown : ∀ l m, e = some (.acquire l m) → clashes held l m = false) :
    Step Starts (c.set i ⟨held, t⟩ s) (c.set i ⟨heldAfter e held, t'⟩ s') := by
  have hallowed : Allows (c.set i ⟨held, t⟩ s).held e := by
    rcases e with _ | ⟨l, m⟩ | ⟨l, m⟩
    · trivial
    · intro j
      rw [held_set]
      by_cases hj : j = i
      · subst hj
        rw [Function.update_self]
        exact hown l m rfl
      · rw [Function.update_of_ne hj, hothers j hj, clashes_nil]
    · trivial
  have hstep : Step Starts (c.set i ⟨held, t⟩ s) _ :=
    .move i e t' s' hallowed (by simpa using hmove)
  simpa using hstep

section StepSet

variable (hothers : ∀ j, j ≠ i → c.held j = [])

include hothers

theorem step_act (f : W → W) (k : W → Task L W U α) : Step Starts (c.set i ⟨held, .act f k⟩ s)
    (c.set i ⟨held, k s.world⟩ { s with world := f s.world }) := by
  refine step_set hothers (.act f k s) ?_
  intro _ _ hacquire
  cases hacquire

theorem step_lock {l : L} {m : Mode} (hfree : clashes held l m = false) (k : Task L W U α) :
    Step Starts (c.set i ⟨held, .lock l m k⟩ s) (c.set i ⟨(l, m) :: held, k⟩ s) := by
  refine step_set hothers (.lock l m k s) ?_
  intro _ _ hacquire
  cases hacquire
  exact hfree

theorem step_unlock (l : L) (m : Mode) (k : Task L W U α) :
    Step Starts (c.set i ⟨held, .unlock l m k⟩ s) (c.set i ⟨held.erase (l, m), k⟩ s) := by
  refine step_set hothers (.unlock l m k s) ?_
  intro _ _ hacquire
  cases hacquire

theorem step_send (u : U) (k : Bool → Task L W U α) : Step Starts (c.set i ⟨held, .send u k⟩ s)
    (c.set i ⟨held, k (s.chan.send u).1⟩ { s with chan := (s.chan.send u).2 }) := by
  refine step_set hothers (.send u k s) ?_
  intro _ _ hacquire
  cases hacquire

end StepSet

section Alone

variable {β : Type} {R : Shared W U → Shared W U → Prop} [Std.Refl R] {t : Task L W U β}
variable {g : β → Task L W U α} {b : β} (hothers : ∀ j, j ≠ i → c.held j = [])

include hothers

/-- While the others hold no guards, a task may run on as if it were alone, and each of its
steps keeps to what the task is confined to. -/
theorem run_alone (hR : Task.Confined R t) (h : Task.exec held t s = .done b held' s') :
    Run (fun c c' ↦ (Step Starts c c' ∧ Apart i c c') ∧ R c.shared c'.shared)
      (c.set i ⟨held, t >>= g⟩ s) (c.set i ⟨held', g b⟩ s') := by
  induction t generalizing held s with
  | ret b' =>
    cases h
    exact .refl
  | act f k ih =>
    exact .cons ⟨⟨step_act hothers f _, apart_set _ _ _ _ _ _⟩, hR.1 s⟩ (ih _ (hR.2 _) h)
  | lock l m k ih =>
    rw [Task.exec] at h
    split at h
    · cases h
    · next hfree =>
      have hfree := Bool.eq_false_iff.mpr hfree
      exact .cons ⟨⟨step_lock hothers hfree _, apart_set _ _ _ _ _ _⟩, Std.Refl.refl s⟩ (ih hR h)
  | unlock l m k ih =>
    exact .cons ⟨⟨step_unlock hothers l m _, apart_set _ _ _ _ _ _⟩, Std.Refl.refl s⟩ (ih hR h)
  | send u k ih =>
    exact .cons ⟨⟨step_send hothers u _, apart_set _ _ _ _ _ _⟩, hR.1 s⟩ (ih _ (hR.2 _) h)

theorem run_bind_within (hR : Task.Confined R t) (h : Task.exec held t s = .done b held' s') :
    Run (fun c c' ↦ Step Starts c c' ∧ R c.shared c'.shared)
      (c.set i ⟨held, t >>= g⟩ s) (c.set i ⟨held', g b⟩ s') :=
  (run_alone hothers hR h).mono fun _ _ hstep ↦ ⟨hstep.1.1, hstep.2⟩

omit [Std.Refl R] in
theorem run_to_last {t : Task L W U α} {a : α} (hne : ∀ a, t ≠ .ret a)
    (h : Task.exec held t s = .done a held' s') : ∃ p s₁,
      Run (Step Starts) (c.set i ⟨held, t⟩ s) (c.set i p s₁) ∧ (∀ a, p.code ≠ .ret a) ∧
        Step Starts (c.set i p s₁) (c.set i ⟨held', .ret a⟩ s') := by
  have hnext : ∀ {t : Task L W U α} {held held₁ t₁ s s₁}, (∀ a, t ≠ .ret a) →
      Step Starts (c.set i ⟨held, t⟩ s) (c.set i ⟨held₁, t₁⟩ s₁) →
      Task.exec held₁ t₁ s₁ = .done a held' s' →
      ((∀ a, t₁ ≠ .ret a) → ∃ p s₂,
        Run (Step Starts) (c.set i ⟨held₁, t₁⟩ s₁) (c.set i p s₂) ∧ (∀ a, p.code ≠ .ret a) ∧
          Step Starts (c.set i p s₂) (c.set i ⟨held', .ret a⟩ s')) →
      ∃ p s₂, Run (Step Starts) (c.set i ⟨held, t⟩ s) (c.set i p s₂) ∧ (∀ a, p.code ≠ .ret a) ∧
        Step Starts (c.set i p s₂) (c.set i ⟨held', .ret a⟩ s') := by
    intro t held held₁ t₁ s s₁ hne hstep hexec hrest
    by_cases hend : ∃ a, t₁ = .ret a
    · obtain ⟨a', rfl⟩ := hend
      cases hexec
      exact ⟨⟨held, t⟩, s, .refl, hne, hstep⟩
    · obtain ⟨p, s₂, hrun, hp, hlast⟩ := hrest fun a ha ↦ hend ⟨a, ha⟩
      exact ⟨p, s₂, .cons hstep hrun, hp, hlast⟩
  induction t generalizing held s with
  | ret a' => exact absurd rfl (hne a')
  | act f k ih =>
    exact hnext hne (step_act hothers f k) h fun hk ↦ ih _ hk h
  | lock l m k ih =>
    rw [Task.exec] at h
    split at h
    · cases h
    · next hfree =>
      exact hnext hne (step_lock hothers (Bool.eq_false_iff.mpr hfree) k) h fun hk ↦ ih hk h
  | unlock l m k ih =>
    exact hnext hne (step_unlock hothers l m k) h fun hk ↦ ih hk h
  | send u k ih =>
    exact hnext hne (step_send hothers u k) h fun hk ↦ ih _ hk h

end Alone

section Segments

variable {R : Shared W U → Shared W U → Prop} [Std.Refl R]
variable (hothers : ∀ j, j ≠ i → c.held j = [])

include hothers

theorem run_segment {β : Type} {t : Task L W U β} {g : β → Task L W U α} {b : β}
    (hcode : c.code i = t >>= g) (hR : Task.Confined R t)
    (h : Task.exec (c.held i) t c.shared = .done b held' s') :
    Run (fun c c' ↦ Step Starts c c' ∧ R c.shared c'.shared)
      c (c.set i ⟨held', g b⟩ s') := by
  have hrun : Run (fun c c' ↦ Step Starts c c' ∧ R c.shared c'.shared)
      (c.set i ⟨c.held i, t >>= g⟩ c.shared) (c.set i ⟨held', g b⟩ s') :=
    run_bind_within hothers hR h
  rwa [← hcode, set_eq_self] at hrun

theorem run_task {t : Task L W U α} {a : α} (hcode : c.code i = t) (hR : Task.Confined R t)
    (h : Task.exec (c.held i) t c.shared = .done a held' s') :
    Run (fun c c' ↦ Step Starts c c' ∧ R c.shared c'.shared)
      c (c.set i ⟨held', .ret a⟩ s') := by
  rw [← t.bind_ret] at hcode
  exact run_segment hothers hcode hR h

omit [Std.Refl R] in
theorem run_part {β : Type} {t : Task L W U β} {g : β → Task L W U α} {b : β}
    (hcode : c.code i = t >>= g) (h : Task.exec (c.held i) t c.shared = .done b held' s') :
    Run (Step Starts) c (c.set i ⟨held', g b⟩ s') := by
  have hrefl : Std.Refl fun _ _ : Shared W U ↦ True := ⟨fun _ ↦ trivial⟩
  exact (run_segment hothers hcode t.confined_true h).mono fun _ _ hstep ↦ hstep.1

omit [Std.Refl R] in
theorem run_rest {a : α} (h : Task.exec (c.held i) (c.code i) c.shared = .done a held' s') :
    Run (Step Starts) c (c.set i ⟨held', .ret a⟩ s') :=
  run_part hothers (c.code i).bind_ret.symm h

end Segments

section Whole

variable {R : Shared W U → Shared W U → Prop} [Std.Refl R] {t : Task L W U α} {a : α}

theorem run_start (hheld : ∀ j, c.held j = []) (hidle : c.Idle i) (hstart : Starts i none t)
    (hR : Task.Confined R t) (h : Task.exec [] t c.shared = .done a held' s') :
    Run (fun c c' ↦ Step Starts c c' ∧ R c.shared c'.shared) c (c.set i ⟨held', .ret a⟩ s') := by
  have hfirst := Step.start i t hidle hstart
  rw [hheld i] at hfirst
  have hrest := @run_bind_within _ _ _ _ _ _ _ Starts c i [] held' c.shared s' _ R _ t .ret a
    (fun j _ ↦ hheld j) hR h
  rw [Task.bind_ret] at hrest
  exact .cons ⟨hfirst, Std.Refl.refl _⟩ hrest

theorem run_receive {u : U} {ch : Channel U} (hheld : ∀ j, c.held j = []) (hidle : c.Idle i)
    (hrecv : c.shared.chan.recv = some (u, ch)) (hstart : Starts i (some u) t)
    (hRecv : R c.shared { c.shared with chan := ch }) (hR : Task.Confined R t)
    (h : Task.exec [] t { c.shared with chan := ch } = .done a held' s') :
    Run (fun c c' ↦ Step Starts c c' ∧ R c.shared c'.shared) c (c.set i ⟨held', .ret a⟩ s') := by
  have hfirst := Step.receive i u ch t hidle hrecv hstart
  rw [hheld i] at hfirst
  have hrest := @run_bind_within _ _ _ _ _ _ _ Starts c i [] held' { c.shared with chan := ch } s'
    _ R _ t .ret a (fun j _ ↦ hheld j) hR h
  rw [Task.bind_ret] at hrest
  exact .cons ⟨hfirst, hRecv⟩ hrest

theorem run_whole (hheld : ∀ j, c.held j = []) (hidle : c.Idle i) (hstart : Starts i none t)
    (h : Task.exec [] t c.shared = .done a held' s') :
    Run (Step Starts) c (c.set i ⟨held', .ret a⟩ s') := by
  have hrefl : Std.Refl fun _ _ : Shared W U ↦ True := ⟨fun _ ↦ trivial⟩
  exact (run_start hheld hidle hstart t.confined_true h).mono fun _ _ hstep ↦ hstep.1

end Whole

end Pool

end Async
