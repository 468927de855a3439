import MetalBond.Async.Protocol

namespace Async

open Async.Task (LockEvent Follows Quiet)

/-- A view of the shared data that only holders of a write guard change, and what holds of it
whenever nobody does. Taking a message off the channel leaves the view alone. -/
structure Monitor (L W U V : Type) where
  lock : L
  view : Shared W U → V
  Good : V → Prop
  view_recv : ∀ {s u ch}, s.chan.recv = some (u, ch) → view { s with chan := ch } = view s

namespace Monitor

variable {ι L W U V α β : Type} (M : Monitor L W U V)

abbrev guard : Guard L := (M.lock, .write)

/-- A task that is inside knows the view; one that leaves has made it good again. -/
inductive Step : Option V → Option (LockEvent L) → Shared W U → Option V → Shared W U → Prop
  | outside {e s s'} (hacquire : e ≠ some (.acquire M.lock .write))
    (hrelease : e ≠ some (.release M.lock .write)) (hview : M.view s' = M.view s) :
    Step none e s none s'
  | enter {s} : Step none (some (.acquire M.lock .write)) s (some (M.view s)) s
  | within {v e s s'} (hrelease : e ≠ some (.release M.lock .write)) :
    Step (some v) e s (some (M.view s')) s'
  | leave {v s} (hgood : M.Good v) : Step (some v) (some (.release M.lock .write)) s none s

def Knows : Option V → Option (LockEvent L) → Shared W U → Prop
  | none, e, s => e = some (.acquire M.lock .write) → M.Good (M.view s)
  | some v, _, s => M.view s = v

def protocol : Protocol (Option V) L W U where
  Knows := M.Knows
  Step := M.Step
  Idle σ := σ = none
  Start _ _ σ' := σ' = none

section Rules

variable {M}

theorem quiet : Quiet M.protocol none (fun s s' ↦ M.view s' = M.view s) (· ≠ M.guard) where
  act _ hview := .outside nofun nofun hview
  acquire _ hne := .outside (fun h ↦ hne (by cases h; rfl)) nofun rfl
  release _ hne := .outside nofun (fun h ↦ hne (by cases h; rfl)) rfl

theorem quiet_inside (v : V) :
    Quiet M.protocol (some v) (fun s s' ↦ M.view s' = M.view s) (· ≠ M.guard) where
  act {s s'} hs hview := by
    have hv : M.view s = v := hs
    have hstep : M.Step (some v) none s (some (M.view s')) s' := .within nofun
    rwa [hview, hv] at hstep
  acquire {l m s} hs _ := by
    have hv : M.view s = v := hs
    have hstep : M.Step (some v) (some (.acquire l m)) s (some (M.view s)) s := .within nofun
    rwa [hv] at hstep
  release {l m s} hs hne := by
    have hv : M.view s = v := hs
    have hstep : M.Step (some v) (some (.release l m)) s (some (M.view s)) s :=
      .within fun h ↦ hne (by cases h; rfl)
    rwa [hv] at hstep

theorem follows_update {v : V} {f : W → α × W} {Q : Option V → α → Prop}
    (h : ∀ s, M.view s = v → Q (some (M.view { s with world := (f s.world).2 })) (f s.world).1) :
    Follows M.protocol Q (Task.update f) (some v) :=
  .update fun s hs ↦ ⟨_, .within nofun, h s hs⟩

theorem follows_modify {v : V} {f : W → W} {Q : Option V → Unit → Prop}
    (h : ∀ s, M.view s = v → Q (some (M.view { s with world := f s.world })) ()) :
    Follows M.protocol Q (Task.modify f) (some v) :=
  .modify fun s hs ↦ ⟨_, .within nofun, h s hs⟩

theorem follows_sendOn {v : V} {u : U} {Q : Option V → Bool → Prop}
    (h : ∀ s, M.view s = v →
      Q (some (M.view { s with chan := (s.chan.send u).2 })) (s.chan.send u).1) :
    Follows M.protocol Q (Task.sendOn u) (some v) :=
  .sendOn fun s hs ↦ ⟨_, .within nofun, h s hs⟩

theorem follows_enter : Follows M.protocol (fun σ _ ↦ ∃ v, σ = some v ∧ M.Good v)
    (Task.acquire M.lock .write) none :=
  .acquire fun s hs ↦ ⟨some (M.view s), .enter, M.view s, rfl, hs rfl⟩

theorem follows_leave {v : V} (h : M.Good v) :
    Follows M.protocol (fun σ _ ↦ σ = none) (Task.release M.lock .write) (some v) :=
  .release fun _ _ ↦ ⟨none, .leave h, rfl⟩

theorem follows_section {body : Task L W U α} {g : α → Task L W U β} {Then : Option V → β → Prop}
    (hbody : ∀ v, M.Good v →
      Follows M.protocol (fun σ _ ↦ ∃ v, σ = some v ∧ M.Good v) body (some v))
    (hg : ∀ a, Follows M.protocol Then (g a) none) :
    Follows M.protocol Then (do
      Task.acquire M.lock .write
      let a ← body
      Task.release M.lock .write
      g a) none := by
  refine follows_enter.bind fun σ _ hσ ↦ ?_
  obtain ⟨v, rfl, hv⟩ := hσ
  refine (hbody v hv).bind fun σ a hσ ↦ ?_
  obtain ⟨v', rfl, hv'⟩ := hσ
  exact (follows_leave hv').andThen fun _ ↦ hg a

theorem follows_writing {f : W → α × W} {Q : Option V → α → Prop}
    (hview : ∀ s : Shared W U, M.view { s with world := (f s.world).2 } = M.view s)
    (hpost : ∀ a, Q none a) : Follows M.protocol Q (Task.writing M.lock f) none := by
  refine follows_section (fun v hv ↦ follows_update fun s hs ↦ ?_) fun a ↦ .ret (hpost a)
  exact ⟨v, by rw [hview, hs], hv⟩

end Rules

structure Holds (σ : ι → Option V) (held : ι → List (Guard L)) (s : Shared W U) : Prop where
  exclusive : Exclusive held
  outside : ∀ i, σ i = none ↔ M.guard ∉ held i
  current : ∀ i v, σ i = some v → v = M.view s
  good : (∀ i, σ i = none) → M.Good (M.view s)

/-- The state of a pool before, in and between critical sections of its tasks. -/
def Sound (c : Pool ι L W U α) : Prop :=
  ∃ σ, c.Follows M.protocol σ ∧ M.Holds σ c.held c.shared

variable {M}

theorem Sound.good {c : Pool ι L W U α} (h : M.Sound c) (hfree : ∀ i, M.guard ∉ c.held i) :
    M.Good (M.view c.shared) := by
  obtain ⟨σ, -, hholds⟩ := h
  exact hholds.good fun i ↦ (hholds.outside i).mpr (hfree i)

theorem Sound.good_of_idle {c : Pool ι L W U α} (h : M.Sound c) (hidle : ∀ i, c.Idle i) :
    M.Good (M.view c.shared) := by
  obtain ⟨σ, hfollows, hholds⟩ := h
  refine hholds.good fun i ↦ ?_
  exact hfollows.idle (hidle i)

theorem Sound.exclusive {c : Pool ι L W U α} (h : M.Sound c) : Exclusive c.held := by
  obtain ⟨σ, -, hholds⟩ := h
  exact hholds.exclusive

theorem sound_of_idle {c : Pool ι L W U α} (hidle : ∀ i, c.Idle i) (hheld : ∀ i, c.held i = [])
    (hgood : M.Good (M.view c.shared)) : M.Sound c := by
  refine ⟨fun _ ↦ none, fun i ↦ ?_, ?_, ?_, nofun, fun _ ↦ hgood⟩
  · obtain ⟨a, ha⟩ := hidle i
    rw [ha]
    exact rfl
  · rw [show c.held = fun _ ↦ [] from funext hheld]
    exact exclusive_nil
  · intro i
    rw [hheld i]
    simp

variable [DecidableEq L]

theorem notMem_of_allows {held : ι → List (Guard L)}
    (h : Allows held (some (.acquire M.lock .write))) (i : ι) : M.guard ∉ held i := by
  intro hmem
  cases clashes_eq_false.mp (h i) _ hmem rfl

theorem mem_heldAfter_iff {held : List (Guard L)} {e : Option (LockEvent L)}
    (hacquire : e ≠ some (.acquire M.lock .write)) (hrelease : e ≠ some (.release M.lock .write)) :
    M.guard ∈ heldAfter e held ↔ M.guard ∈ held := by
  rcases e with _ | ⟨l, m⟩ | ⟨l, m⟩
  · rfl
  · have hne : M.guard ≠ (l, m) := fun h ↦ hacquire (by cases h; rfl)
    simp [heldAfter, hne]
  · have hne : M.guard ≠ (l, m) := fun h ↦ hrelease (by cases h; rfl)
    exact List.mem_erase_of_ne hne

variable {σ : ι → Option V} {held held' : ι → List (Guard L)} {s s' : Shared W U} {i : ι}

theorem Holds.knows (h : M.Holds σ held s) (i : ι) {e : Option (LockEvent L)}
    (he : Allows held e) : M.protocol.Knows (σ i) e s := by
  cases hσ : σ i with
  | none =>
    rintro rfl
    exact h.good fun j ↦ (h.outside j).mpr (notMem_of_allows he j)
  | some v => exact (h.current i v hσ).symm

variable [DecidableEq ι]

theorem Holds.update (h : M.Holds σ held s) (hexclusive : Exclusive held') {σi : Option V}
    (hheld : ∀ j, j ≠ i → held' j = held j) (hi : σi = none ↔ M.guard ∉ held' i)
    (hcurrent : ∀ v, σi = some v → v = M.view s')
    (hview : M.view s' = M.view s ∨ M.guard ∈ held i)
    (hgood : σi = none → M.Good (M.view s') ∨ σ i = none ∧ M.view s' = M.view s) :
    M.Holds (Function.update σ i σi) held' s' := by
  refine ⟨hexclusive, fun j ↦ ?_, fun j v hj ↦ ?_, fun hnone ↦ ?_⟩
  · by_cases hj : j = i
    · subst hj
      rw [Function.update_self]
      exact hi
    · rw [Function.update_of_ne hj, hheld j hj]
      exact h.outside j
  · by_cases hji : j = i
    · subst hji
      rw [Function.update_self] at hj
      exact hcurrent v hj
    · rw [Function.update_of_ne hji] at hj
      rcases hview with hview | hmem
      · rw [hview]
        exact h.current j v hj
      · have hinside : M.guard ∈ held j := by
          by_contra hout
          cases ((h.outside j).mpr hout).symm.trans hj
        exact absurd (h.exclusive.eq_of_write hinside hmem) hji
  · have hσi : σi = none := by simpa using hnone i
    rcases hgood hσi with hgood | ⟨hσ, hview⟩
    · exact hgood
    · rw [hview]
      refine h.good fun j ↦ ?_
      by_cases hji : j = i
      · rw [hji, hσ]
      · simpa [hji] using hnone j

theorem Holds.move (h : M.Holds σ held s) {σi : Option V}
    (hmove : M.protocol.Move held i (σ i) s σi held' s') :
    M.Holds (Function.update σ i σi) held' s' := by
  have hexclusive := hmove.exclusive h.exclusive
  generalize hσ : σ i = σ₀ at hmove
  have hout := h.outside i
  cases hmove with
  | step e _ _ hallowed hstep =>
    have hheld : ∀ j, j ≠ i → Function.update held i (heldAfter e (held i)) j = held j :=
      fun j hj ↦ Function.update_of_ne hj _ _
    have hself : Function.update held i (heldAfter e (held i)) i = heldAfter e (held i) :=
      Function.update_self ..
    cases hstep with
    | outside hacquire hrelease hview =>
      refine h.update hexclusive hheld ?_ nofun (Or.inl hview) fun _ ↦ Or.inr ⟨hσ, hview⟩
      rw [hself, mem_heldAfter_iff hacquire hrelease, ← hout, hσ]
    | enter =>
      refine h.update hexclusive hheld ?_ ?_ (Or.inl rfl) nofun
      · rw [hself]
        simp [heldAfter]
      · intro v hex
        cases hex
        rfl
    | @within v _ _ _ hrelease =>
      have hmem : M.guard ∈ held i := by
        by_contra hn
        cases (hout.mpr hn).symm.trans hσ
      refine h.update hexclusive hheld ?_ ?_ (Or.inr hmem) nofun
      · rw [hself]
        rcases e with _ | ⟨l, m⟩ | ⟨l, m⟩
        · exact iff_of_false nofun (not_not_intro hmem)
        · simp [heldAfter, hmem]
        · have hne : M.guard ≠ (l, m) := fun h ↦ hrelease (by cases h; rfl)
          simpa [heldAfter, List.mem_erase_of_ne hne] using hmem
      · intro v hex
        cases hex
        rfl
    | leave hgood =>
      refine h.update hexclusive hheld ?_ nofun (Or.inl rfl) fun _ ↦ Or.inl ?_
      · rw [hself]
        exact iff_of_true rfl (h.exclusive.notMem_erase i M.lock)
      · rwa [← h.current i _ hσ]
  | start _ hidle hstart =>
    obtain rfl : σi = none := hstart
    obtain rfl : σ₀ = none := hidle
    rw [← hσ, Function.update_eq_self]
    exact h
  | receive u ch _ hidle hrecv hstart =>
    obtain rfl : σi = none := hstart
    obtain rfl : σ₀ = none := hidle
    have hview := M.view_recv hrecv
    exact h.update hexclusive (fun _ _ ↦ rfl) (iff_of_true rfl (hout.mp hσ)) nofun (Or.inl hview)
      fun _ ↦ Or.inr ⟨hσ, hview⟩

variable {Starts : ι → Option U → Task L W U α → Prop} {c c' : Pool ι L W U α}

theorem Sound.step (h : M.Sound c)
    (hstarts : ∀ i o t, Starts i o t → Follows M.protocol (fun σ _ ↦ σ = none) t none)
    (hstep : Pool.Step Starts c c') : M.Sound c' := by
  obtain ⟨σ, hfollows, hholds⟩ := h
  obtain ⟨i, σ', hmove, hfollows'⟩ := hstep.refines hfollows (fun i e ↦ hholds.knows i)
    fun i o t _ hstart ↦ ⟨none, rfl, hstarts i o t hstart⟩
  exact ⟨_, hfollows', hholds.move hmove⟩

end Monitor

end Async
