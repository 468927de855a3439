import MetalBond.Async.Interleave

namespace Async

/-- The part that a task plays among others, in stages: what it may rely on before a step,
what the step may do, and when and how it starts anew. -/
structure Protocol (Stage L W U : Type) where
  Knows : Stage → Option (Task.LockEvent L) → Shared W U → Prop
  Step : Stage → Option (Task.LockEvent L) → Shared W U → Stage → Shared W U → Prop
  Idle : Stage → Prop
  Start : Stage → Option U → Stage → Prop

namespace Task

variable {Stage L W U α β : Type} (P : Protocol Stage L W U)

/-- From the stage on, every step of the task is one that the protocol permits, whatever
the other tasks do as long as the task may rely on what it knows. -/
def Follows (Post : Stage → α → Prop) : Task L W U α → Stage → Prop
  | ret a, σ => Post σ a
  | act f k, σ => ∀ s, P.Knows σ none s → ∃ σ',
    P.Step σ none s σ' { s with world := f s.world } ∧ Follows Post (k s.world) σ'
  | lock l m k, σ => ∀ s, P.Knows σ (some (.acquire l m)) s → ∃ σ',
    P.Step σ (some (.acquire l m)) s σ' s ∧ Follows Post k σ'
  | unlock l m k, σ => ∀ s, P.Knows σ (some (.release l m)) s → ∃ σ',
    P.Step σ (some (.release l m)) s σ' s ∧ Follows Post k σ'
  | send u k, σ => ∀ s, P.Knows σ none s → ∃ σ',
    P.Step σ none s σ' { s with chan := (s.chan.send u).2 } ∧ Follows Post (k (s.chan.send u).1) σ'

namespace Follows

variable {P} {Post Post' : Stage → α → Prop} {Then : Stage → β → Prop} {σ σ' : Stage}
variable {t : Task L W U α} {g : α → Task L W U β}

theorem ret {a : α} (h : Post σ a) : Follows P Post (.ret a) σ := h

theorem bind (h : Follows P Post t σ) (hg : ∀ σ a, Post σ a → Follows P Then (g a) σ) :
    Follows P Then (t >>= g) σ := by
  induction t generalizing σ with
  | ret a => exact hg σ a h
  | act f k ih =>
    intro s hs
    obtain ⟨σ', hstep, hk⟩ := h s hs
    exact ⟨σ', hstep, ih _ hk⟩
  | lock l m k ih =>
    intro s hs
    obtain ⟨σ', hstep, hk⟩ := h s hs
    exact ⟨σ', hstep, ih hk⟩
  | unlock l m k ih =>
    intro s hs
    obtain ⟨σ', hstep, hk⟩ := h s hs
    exact ⟨σ', hstep, ih hk⟩
  | send u k ih =>
    intro s hs
    obtain ⟨σ', hstep, hk⟩ := h s hs
    exact ⟨σ', hstep, ih _ hk⟩

theorem mono (h : Follows P Post t σ) (hpost : ∀ σ a, Post σ a → Post' σ a) :
    Follows P Post' t σ := by
  have hbind : Follows P Post' (t >>= .ret) σ := h.bind fun σ a ha ↦ hpost σ a ha
  rwa [bind_ret] at hbind

theorem gets {f : W → α}
    (h : ∀ s, P.Knows σ none s → ∃ σ', P.Step σ none s σ' s ∧ Post σ' (f s.world)) :
    Follows P Post (gets f) σ := h

theorem modify {f : W → W} {Post : Stage → Unit → Prop}
    (h : ∀ s, P.Knows σ none s → ∃ σ', P.Step σ none s σ' { s with world := f s.world } ∧
      Post σ' ()) : Follows P Post (modify f) σ := h

theorem update {f : W → α × W}
    (h : ∀ s, P.Knows σ none s → ∃ σ', P.Step σ none s σ' { s with world := (f s.world).2 } ∧
      Post σ' (f s.world).1) : Follows P Post (update f) σ := h

theorem sendOn {u : U} {Post : Stage → Bool → Prop}
    (h : ∀ s, P.Knows σ none s → ∃ σ', P.Step σ none s σ' { s with chan := (s.chan.send u).2 } ∧
      Post σ' (s.chan.send u).1) : Follows P Post (sendOn u) σ := h

theorem acquire {l : L} {m : Mode} {Post : Stage → Unit → Prop}
    (h : ∀ s, P.Knows σ (some (.acquire l m)) s → ∃ σ',
      P.Step σ (some (.acquire l m)) s σ' s ∧ Post σ' ()) : Follows P Post (acquire l m) σ := h

theorem release {l : L} {m : Mode} {Post : Stage → Unit → Prop}
    (h : ∀ s, P.Knows σ (some (.release l m)) s → ∃ σ',
      P.Step σ (some (.release l m)) s σ' s ∧ Post σ' ()) : Follows P Post (release l m) σ := h

theorem andThen (h : Follows P (fun τ _ ↦ τ = σ') t σ) (hg : ∀ a, Follows P Then (g a) σ') :
    Follows P Then (t >>= g) σ :=
  h.bind fun _ a hσ' ↦ hσ' ▸ hg a

theorem move (h : Follows P Post t σ) {s s' : Shared W U} {e : Option (LockEvent L)}
    {t' : Task L W U α} (hmove : Move t s e t' s') (hknows : P.Knows σ e s) :
    ∃ σ', P.Step σ e s σ' s' ∧ Follows P Post t' σ' := by
  cases hmove with
  | act f k => exact h s hknows
  | lock l m k => exact h s hknows
  | unlock l m k => exact h s hknows
  | send u k => exact h s hknows

end Follows

/-- At the stage the protocol permits every change of the data within `R` and every use of
the locks within `uses`. -/
structure Quiet (σ : Stage) (R : Shared W U → Shared W U → Prop) (uses : Guard L → Prop) :
    Prop where
  act : ∀ {s s'}, P.Knows σ none s → R s s' → P.Step σ none s σ s'
  acquire : ∀ {l m s}, P.Knows σ (some (.acquire l m)) s → uses (l, m) →
    P.Step σ (some (.acquire l m)) s σ s
  release : ∀ {l m s}, P.Knows σ (some (.release l m)) s → uses (l, m) →
    P.Step σ (some (.release l m)) s σ s

namespace Quiet

variable {P} {σ : Stage} {R : Shared W U → Shared W U → Prop} {uses : Guard L → Prop}

theorem modify (h : Quiet P σ R uses) {f : W → W} (hf : ∀ s, R s { s with world := f s.world }) :
    Follows P (fun σ' _ ↦ σ' = σ) (modify f) σ :=
  .modify fun s hs ↦ ⟨σ, h.act hs (hf s), rfl⟩

theorem update (h : Quiet P σ R uses) {f : W → α × W}
    (hf : ∀ s, R s { s with world := (f s.world).2 }) :
    Follows P (fun σ' _ ↦ σ' = σ) (update f) σ :=
  .update fun s hs ↦ ⟨σ, h.act hs (hf s), rfl⟩

theorem acquires (h : Quiet P σ R uses) {l : L} {m : Mode} (hl : uses (l, m)) :
    Follows P (fun σ' _ ↦ σ' = σ) (Task.acquire l m) σ :=
  .acquire fun _ hs ↦ ⟨σ, h.acquire hs hl, rfl⟩

theorem releases (h : Quiet P σ R uses) {l : L} {m : Mode} (hl : uses (l, m)) :
    Follows P (fun σ' _ ↦ σ' = σ) (Task.release l m) σ :=
  .release fun _ hs ↦ ⟨σ, h.release hs hl, rfl⟩

theorem writing (h : Quiet P σ R uses) {l : L} (hl : uses (l, .write)) {f : W → α × W}
    (hf : ∀ s, R s { s with world := (f s.world).2 }) :
    Follows P (fun σ' _ ↦ σ' = σ) (writing l f) σ :=
  (h.acquires hl).andThen fun _ ↦ (h.update hf).andThen fun _ ↦ (h.releases hl).andThen fun _ ↦
    .ret rfl

/-- Where every use of the locks is permitted, code confined to the relation stays at the stage. -/
theorem of_confined (h : Quiet P σ R fun _ ↦ True) {t : Task L W U α} (ht : Confined R t) :
    Follows P (fun σ' _ ↦ σ' = σ) t σ := by
  induction t with
  | ret a => rfl
  | act f k ih => exact fun s hs ↦ ⟨σ, h.act hs (ht.1 s), ih _ (ht.2 _)⟩
  | lock l m k ih => exact fun s hs ↦ ⟨σ, h.acquire hs trivial, ih ht⟩
  | unlock l m k ih => exact fun s hs ↦ ⟨σ, h.release hs trivial, ih ht⟩
  | send u k ih => exact fun s hs ↦ ⟨σ, h.act hs (ht.1 s), ih _ (ht.2 _)⟩

variable [Std.Refl R]

theorem gets (h : Quiet P σ R uses) (f : W → α) :
    Follows P (fun σ' _ ↦ σ' = σ) (gets f) σ :=
  .gets fun s hs ↦ ⟨σ, h.act hs (Std.Refl.refl s), rfl⟩

theorem reading (h : Quiet P σ R uses) {l : L} (hl : uses (l, .read)) (f : W → α) :
    Follows P (fun σ' _ ↦ σ' = σ) (reading l f) σ :=
  (h.acquires hl).andThen fun _ ↦ (h.gets f).andThen fun _ ↦ (h.releases hl).andThen fun _ ↦
    .ret rfl

end Quiet

end Task

variable {ι Stage L W U α : Type} [DecidableEq L] [DecidableEq ι]

inductive Protocol.Move (P : Protocol Stage L W U) (held : ι → List (Guard L)) (i : ι)
    (σ : Stage) (s : Shared W U) : Stage → (ι → List (Guard L)) → Shared W U → Prop
  | step (e : Option (Task.LockEvent L)) (σ' : Stage) (s' : Shared W U) (hallowed : Allows held e)
    (h : P.Step σ e s σ' s') :
    Move P held i σ s σ' (Function.update held i (heldAfter e (held i))) s'
  | start (σ' : Stage) (hidle : P.Idle σ) (h : P.Start σ none σ') : Move P held i σ s σ' held s
  | receive (u : U) (ch : Channel U) (σ' : Stage) (hidle : P.Idle σ)
    (hrecv : s.chan.recv = some (u, ch)) (h : P.Start σ (some u) σ') :
    Move P held i σ s σ' held { s with chan := ch }

theorem Protocol.Move.exclusive {P : Protocol Stage L W U} {held held' : ι → List (Guard L)}
    {i : ι} {σ σ' : Stage} {s s' : Shared W U} (h : P.Move held i σ s σ' held' s')
    (hexcl : Exclusive held) : Exclusive held' := by
  cases h with
  | step e _ _ hallowed _ => exact hexcl.step hallowed i
  | start => exact hexcl
  | receive => exact hexcl

namespace Pool

variable {P : Protocol Stage L W U} {Starts : ι → Option U → Task L W U α → Prop}

def Follows (P : Protocol Stage L W U) (σ : ι → Stage) (c : Pool ι L W U α) : Prop :=
  ∀ i, Task.Follows P (fun σ _ ↦ P.Idle σ) (c.code i) (σ i)

omit [DecidableEq L] [DecidableEq ι] in
theorem Follows.idle {c : Pool ι L W U α} {σ : ι → Stage} (h : c.Follows P σ) {i : ι}
    (hidle : c.Idle i) : P.Idle (σ i) := by
  obtain ⟨a, ha⟩ := hidle
  have hret := h i
  rwa [ha] at hret

omit [DecidableEq L] in
theorem Follows.set {c : Pool ι L W U α} {σ : ι → Stage} (h : c.Follows P σ) {i : ι} {σ' : Stage}
    {p : Proc L W U α} (hp : Task.Follows P (fun σ _ ↦ P.Idle σ) p.code σ') (s : Shared W U) :
    (c.set i p s).Follows P (Function.update σ i σ') := by
  intro j
  rw [code_set]
  by_cases hj : j = i
  · subst hj
    rwa [Function.update_self, Function.update_self]
  · rw [Function.update_of_ne hj, Function.update_of_ne hj]
    exact h j

/-- A pool whose tasks follow the protocol makes no move that the protocol has not. -/
theorem Step.refines {c c' : Pool ι L W U α} (hstep : Step Starts c c') {σ : ι → Stage}
    (hfollows : c.Follows P σ)
    (hknows : ∀ i e, Allows c.held e → P.Knows (σ i) e c.shared)
    (hstarts : ∀ i o t, P.Idle (σ i) → Starts i o t → ∃ σ', P.Start (σ i) o σ' ∧
      Task.Follows P (fun σ _ ↦ P.Idle σ) t σ') :
    ∃ i σ', P.Move c.held i (σ i) c.shared σ' c'.held c'.shared ∧
      c'.Follows P (Function.update σ i σ') := by
  cases hstep with
  | move i e t s hallowed hmove =>
    obtain ⟨σ', hσ', ht⟩ := (hfollows i).move hmove (hknows i e hallowed)
    refine ⟨i, σ', ?_, hfollows.set ht _⟩
    rw [held_set]
    exact .step e σ' s hallowed hσ'
  | start i t hret hstart =>
    obtain ⟨σ', hσ', ht⟩ := hstarts i none t (hfollows.idle hret) hstart
    refine ⟨i, σ', ?_, hfollows.set ht _⟩
    rw [held_set, Function.update_eq_self]
    exact .start σ' (hfollows.idle hret) hσ'
  | receive i u ch t hret hrecv hstart =>
    obtain ⟨σ', hσ', ht⟩ := hstarts i (some u) t (hfollows.idle hret) hstart
    refine ⟨i, σ', ?_, hfollows.set ht _⟩
    rw [held_set, Function.update_eq_self]
    exact .receive u ch σ' (hfollows.idle hret) hrecv hσ'

end Pool

end Async
