import MetalBond.Async.Owned

namespace Async

open Async.Task (Confined Follows)

variable {ι J V L W U α : Type}

/-- A pool, and which task has started what so far. -/
structure Journal (ι J L W U α : Type) where
  pool : Pool ι L W U α
  entries : List (ι × J)

inductive Leads (step : J → V → V → Prop) (first : V) : List J → V → Prop
  | nil : Leads step first [] first
  | snoc {l : List J} {j : J} {v v' : V} (h : Leads step first l v) (hstep : step j v v') :
    Leads step first (l ++ [j]) v'

theorem Leads.eq_of_nil {step : J → V → V → Prop} {first last : V} (h : Leads step first [] last) :
    last = first := by
  generalize hl : ([] : List J) = l at h
  cases h with
  | nil => rfl
  | snoc _ _ => simp at hl

theorem Leads.single {step : J → V → V → Prop} {first last : V} {j : J}
    (h : Leads step first [j] last) : step j first last := by
  generalize hl : [j] = l at h
  cases h with
  | nil => simp at hl
  | snoc h hstep =>
    have happend : [] ++ [j] = _ ++ [_] := hl
    obtain ⟨hnil, hj⟩ := List.append_inj' happend rfl
    subst hnil
    cases hj
    rwa [h.eq_of_nil] at hstep

theorem Leads.invariant {step : J → V → V → Prop} {Inv : V → Prop} {first last : V} {l : List J}
    (h : Leads step first l last) (hinit : Inv first)
    (hstep : ∀ j v v', Inv v → step j v v' → Inv v') : Inv last := by
  induction h with
  | nil => exact hinit
  | snoc _ hv ih => exact hstep _ _ _ ih hv

/-- Where each job has one outcome, the jobs have, one after the other. -/
theorem Leads.eq_foldl {step : J → V → V → Prop} {f : V → J → V} {first last : V} {l : List J}
    (h : Leads step first l last) (hstep : ∀ j v v', step j v v' → v' = f v j) :
    last = l.foldl f first := by
  induction h with
  | nil => rfl
  | snoc _ hv ih => rw [List.foldl_append, ← ih, hstep _ _ _ hv, List.foldl_cons, List.foldl_nil]

namespace Journal

variable [DecidableEq ι]

def jobs (x : Journal ι J L W U α) (i : ι) : List J :=
  (x.entries.filter fun e ↦ decide (e.1 = i)).map Prod.snd

theorem jobs_own (c : Pool ι L W U α) (l : List (ι × J)) (i : ι) (j : J) :
    jobs ⟨c, l ++ [(i, j)]⟩ i = jobs ⟨c, l⟩ i ++ [j] := by
  simp [jobs]

theorem jobs_other (c : Pool ι L W U α) (l : List (ι × J)) {i k : ι} (hk : k ≠ i) (j : J) :
    jobs ⟨c, l ++ [(k, j)]⟩ i = jobs ⟨c, l⟩ i := by
  simp [jobs, hk]

variable [DecidableEq L]

/-- The pool takes a step. What is started is written down. -/
inductive Step (Starts : ι → J → Option U → Task L W U α → Prop) (x : Journal ι J L W U α) :
    Journal ι J L W U α → Prop
  | move (c : Pool ι L W U α) (h : Pool.Step (fun _ _ _ ↦ False) x.pool c) :
    Step Starts x ⟨c, x.entries⟩
  | start (i : ι) (j : J) (t : Task L W U α) (hidle : x.pool.Idle i) (hstart : Starts i j none t) :
    Step Starts x ⟨x.pool.set i ⟨x.pool.held i, t⟩ x.pool.shared, x.entries ++ [(i, j)]⟩
  | receive (i : ι) (j : J) (u : U) (ch : Channel U) (t : Task L W U α) (hidle : x.pool.Idle i)
    (hrecv : x.pool.shared.chan.recv = some (u, ch)) (hstart : Starts i j (some u) t) :
    Step Starts x ⟨x.pool.set i ⟨x.pool.held i, t⟩ { x.pool.shared with chan := ch },
      x.entries ++ [(i, j)]⟩

variable {Starts : ι → J → Option U → Task L W U α → Prop} {x y : Journal ι J L W U α}

theorem Step.pool (h : Step Starts x y) :
    Pool.Step (fun i o t ↦ ∃ j, Starts i j o t) x.pool y.pool := by
  cases h with
  | move c h => exact h.mono fun _ _ _ hfalse ↦ hfalse.elim
  | start i j t hidle hstart => exact .start i t hidle ⟨j, hstart⟩
  | receive i j u ch t hidle hrecv hstart => exact .receive i u ch t hidle hrecv ⟨j, hstart⟩

theorem run_pool {Allowed : Pool ι L W U α → Pool ι L W U α → Prop}
    (hrun : Run (fun x y ↦ Step Starts x y ∧ Allowed x.pool y.pool) x y) :
    Run (fun c c' ↦ Pool.Step (fun i o t ↦ ∃ j, Starts i j o t) c c' ∧ Allowed c c')
      x.pool y.pool :=
  Relation.ReflTransGen.lift Journal.pool (fun _ _ h ↦ ⟨h.1.pool, h.2⟩) _ _ hrun

theorem run_moves {Allowed : Pool ι L W U α → Pool ι L W U α → Prop} {c c' : Pool ι L W U α}
    (l : List (ι × J))
    (hrun : Run (fun c c' ↦ Pool.Step (fun _ _ _ ↦ False) c c' ∧ Allowed c c') c c') :
    Run (fun x y ↦ Step Starts x y ∧ Allowed x.pool y.pool) ⟨c, l⟩ ⟨c', l⟩ :=
  Relation.ReflTransGen.lift (fun c ↦ (⟨c, l⟩ : Journal ι J L W U α))
    (fun _ c' h ↦ ⟨Step.move c' h.1, h.2⟩) _ _ hrun

section Whole

variable {R : Shared W U → Shared W U → Prop} [Std.Refl R] {c : Pool ι L W U α}
  {l : List (ι × J)} {i : ι} {j : J} {t : Task L W U α} {a : α} {s : Shared W U}

theorem run_rest {s₀ : Shared W U} (hheld : ∀ k, c.held k = []) (hR : Confined R t)
    (h : Task.exec [] t s₀ = .done a [] s) :
    Run (fun x y ↦ Step Starts x y ∧ R x.pool.shared y.pool.shared)
      ⟨c.set i ⟨[], t⟩ s₀, l⟩ ⟨c.set i ⟨[], .ret a⟩ s, l⟩ := by
  have hrest := @Pool.run_bind_within _ _ _ _ _ _ _ (fun _ _ _ ↦ False) c i [] [] s₀ s
    _ R _ t .ret a (fun k _ ↦ hheld k) hR h
  rw [Task.bind_ret] at hrest
  exact run_moves l hrest

theorem run_start (hheld : ∀ k, c.held k = []) (hidle : c.Idle i) (hstart : Starts i j none t)
    (hR : Confined R t) (h : Task.exec [] t c.shared = .done a [] s) :
    Run (fun x y ↦ Step Starts x y ∧ R x.pool.shared y.pool.shared)
      ⟨c, l⟩ ⟨c.set i ⟨[], .ret a⟩ s, l ++ [(i, j)]⟩ := by
  have hfirst : Step Starts ⟨c, l⟩ ⟨c.set i ⟨c.held i, t⟩ c.shared, l ++ [(i, j)]⟩ :=
    .start i j t hidle hstart
  rw [hheld i] at hfirst
  exact .cons ⟨hfirst, Std.Refl.refl _⟩ (run_rest hheld hR h)

theorem run_receive {u : U} {ch : Channel U} (hheld : ∀ k, c.held k = []) (hidle : c.Idle i)
    (hrecv : c.shared.chan.recv = some (u, ch)) (hstart : Starts i j (some u) t)
    (hRecv : R c.shared { c.shared with chan := ch }) (hR : Confined R t)
    (h : Task.exec [] t { c.shared with chan := ch } = .done a [] s) :
    Run (fun x y ↦ Step Starts x y ∧ R x.pool.shared y.pool.shared)
      ⟨c, l⟩ ⟨c.set i ⟨[], .ret a⟩ s, l ++ [(i, j)]⟩ := by
  have hfirst : Step Starts ⟨c, l⟩
      ⟨c.set i ⟨c.held i, t⟩ { c.shared with chan := ch }, l ++ [(i, j)]⟩ :=
    .receive i j u ch t hidle hrecv hstart
  rw [hheld i] at hfirst
  exact .cons ⟨hfirst, hRecv⟩ (run_rest hheld hR h)

omit [Std.Refl R] in
theorem run_whole (hheld : ∀ k, c.held k = []) (hidle : c.Idle i) (hstart : Starts i j none t)
    (h : Task.exec [] t c.shared = .done a [] s) :
    Run (Step Starts) ⟨c, l⟩ ⟨c.set i ⟨[], .ret a⟩ s, l ++ [(i, j)]⟩ := by
  have hrefl : Std.Refl fun _ _ : Shared W U ↦ True := ⟨fun _ ↦ trivial⟩
  exact (run_start hheld hidle hstart t.confined_true h).mono fun _ _ hstep ↦ hstep.1

end Whole

variable {view : W → V} {does : J → V → V → Prop} {first : V} {i : ι}

omit [DecidableEq ι] [DecidableEq L] in
/-- Each job of the owner, from a value that earlier jobs lead to, takes the part one step on,
and all the other tasks leave it alone. -/
structure Serves (view : W → V) (does : J → V → V → Prop) (first : V) (i : ι)
    (Starts : ι → J → Option U → Task L W U α → Prop) : Prop where
  own : ∀ {l v j o t}, Leads does first l v → Starts i j o t →
    Follows (owner view) (fun v' _ ↦ does j v v') t v
  others : ∀ {k j o t}, k ≠ i → Starts k j o t → Confined (Same view) t

/-- Since its first jobs, which are `l₀`, the owner has made of the part what its jobs make of
`first`. -/
def Serving (view : W → V) (does : J → V → V → Prop) (first : V) (i : ι) (l₀ : List J)
    (x : Journal ι J L W U α) : Prop :=
  ∃ l, x.jobs i = l₀ ++ l ∧ Pool.Owned view (Leads does first l) i x.pool

variable {l₀ : List J}

omit [DecidableEq L] in
theorem Serves.start (h : Serves view does first i Starts)
    (hserving : Serving view does first i l₀ x) {k : ι} {j : J} {o : Option U}
    {t : Task L W U α} {held : List (Guard L)} {s : Shared W U} (hidle : x.pool.Idle k)
    (hstart : Starts k j o t) (hs : s.world = x.pool.shared.world) :
    Serving view does first i l₀ ⟨x.pool.set k ⟨held, t⟩ s, x.entries ++ [(k, j)]⟩ := by
  obtain ⟨l, hjobs, howned⟩ := hserving
  by_cases hk : k = i
  · subst hk
    refine ⟨l ++ [j], ?_, howned.set_own ?_⟩
    · rw [jobs_own, ← List.append_assoc, ← hjobs]
      rfl
    · rw [hs]
      have hgood := howned.good hidle
      exact (h.own hgood hstart).mono fun v' _ hv' ↦ hgood.snoc hv'
  · refine ⟨l, ?_, howned.set_other hk (h.others hk hstart) (congrArg view hs)⟩
    rw [jobs_other _ _ hk]
    exact hjobs

theorem Serves.step (h : Serves view does first i Starts)
    (hserving : Serving view does first i l₀ x) (hstep : Step Starts x y) :
    Serving view does first i l₀ y := by
  cases hstep with
  | move c hmove =>
    obtain ⟨l, hjobs, howned⟩ := hserving
    exact ⟨l, hjobs, howned.step ⟨fun _ _ _ h ↦ h.elim, fun _ _ _ _ h ↦ h.elim⟩ hmove⟩
  | start k j t hidle hstarts => exact h.start hserving hidle hstarts rfl
  | receive k j u ch t hidle hrecv hstarts => exact h.start hserving hidle hstarts rfl

theorem Serves.along (h : Serves view does first i Starts)
    (hserving : Serving view does first i l₀ x) (hrun : Run (Step Starts) x y) :
    Serving view does first i l₀ y :=
  hrun.invariant hserving fun _ _ hx hstep ↦ h.step hx hstep

omit [DecidableEq L] in
theorem Serving.leads (h : Serving view does first i l₀ x) (hidle : x.pool.Idle i) :
    ∃ l, x.jobs i = l₀ ++ l ∧ Leads does first l (view x.pool.shared.world) := by
  obtain ⟨l, hjobs, howned⟩ := h
  exact ⟨l, hjobs, howned.good hidle⟩

omit [DecidableEq L] in
theorem serving_idle (hidle : ∀ k, x.pool.Idle k) (hfirst : view x.pool.shared.world = first) :
    Serving view does first i (x.jobs i) x := by
  refine ⟨[], (List.append_nil _).symm, ?_, fun k _ ↦ ?_⟩
  · obtain ⟨a, ha⟩ := hidle i
    rw [ha, hfirst]
    exact .nil
  · obtain ⟨a, ha⟩ := hidle k
    rw [ha]
    exact .ret a

omit [DecidableEq L] in
theorem Serving.anew (h : Serving view does first i l₀ x) (hidle : x.pool.Idle i) :
    Serving view does (view x.pool.shared.world) i (x.jobs i) x := by
  obtain ⟨l, -, howned⟩ := h
  refine ⟨[], (List.append_nil _).symm, ?_, howned.others⟩
  obtain ⟨a, ha⟩ := hidle
  rw [ha]
  exact .nil

/-- Wherever the other tasks are, the part of a task that has returned is what its own jobs make
of it, one after the other. -/
theorem Serves.run (h : Serves view does first i Starts) (hidle : ∀ k, x.pool.Idle k)
    (hentries : x.entries = []) (hfirst : view x.pool.shared.world = first)
    (hrun : Run (Step Starts) x y) (hend : y.pool.Idle i) :
    Leads does first (y.jobs i) (view y.pool.shared.world) := by
  obtain ⟨l, hjobs, hleads⟩ := (h.along (serving_idle hidle hfirst) hrun).leads hend
  rw [hjobs, jobs, hentries]
  exact hleads

/-- A run passes through the state in which the task sets out on its last job. -/
theorem exists_before {l : List J} {j : J} (hrun : Run (Step Starts) x y) (hx : x.jobs i = [])
    (hy : y.jobs i = l ++ [j]) : ∃ m, Run (Step Starts) x m ∧ Run (Step Starts) m y ∧
      m.pool.Idle i ∧ m.jobs i = l := by
  induction hrun with
  | refl =>
    rw [hx] at hy
    simp at hy
  | @tail m y hrun hstep ih =>
    have hstart {k : ι} {j' : J} {c : Pool ι L W U α} (hidle : m.pool.Idle k)
        (hlast : jobs ⟨c, m.entries ++ [(k, j')]⟩ i = l ++ [j]) (hc : Step Starts m
          ⟨c, m.entries ++ [(k, j')]⟩) : ∃ m', Run (Step Starts) x m' ∧
          Run (Step Starts) m' ⟨c, m.entries ++ [(k, j')]⟩ ∧ m'.pool.Idle i ∧ m'.jobs i = l := by
      by_cases hk : k = i
      · subst hk
        rw [jobs_own] at hlast
        exact ⟨m, hrun, .single hc, hidle, (List.append_inj' hlast rfl).1⟩
      · rw [jobs_other _ _ hk] at hlast
        obtain ⟨m', hbefore, hafter, hrest⟩ := ih hlast
        exact ⟨m', hbefore, hafter.tail hc, hrest⟩
    cases hstep with
    | move c hmove =>
      obtain ⟨m', hbefore, hafter, hrest⟩ := ih hy
      exact ⟨m', hbefore, hafter.tail (.move c hmove), hrest⟩
    | start k j' t hidle hstarts => exact hstart hidle hy (.start k j' t hidle hstarts)
    | receive k j' u ch t hidle hrecv hstarts =>
      exact hstart hidle hy (.receive k j' u ch t hidle hrecv hstarts)

end Journal

end Async
