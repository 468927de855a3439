import MetalBond.Async.Outlook
import MetalBond.Async.Protocol
import MetalBond.Collections.Replay

namespace Async

open Collections Async.Task

variable {ι L W U α β : Type}

/-- A set that tasks change, and a log that tells a follower of it once the log is open. The
tasks rely on `Steady` and keep it, and rely on `Ready`. -/
structure Telling (W U α : Type) where
  truth : Shared W U → Set α
  log : Shared W U → List (Change α)
  Open : Shared W U → Prop
  Steady : Shared W U → Prop
  Ready : Shared W U → Prop

namespace Telling

/-- What a task still has to tell, and whether it has seen that the log is open. -/
structure Part (α : Type) where
  due : Set (Change α)
  seen : Prop

def Part.none : Part α := ⟨∅, False⟩

variable (T : Telling W U α)

def told (s : Shared W U) : Set α := replay ∅ (T.log s)

def Current (c : Change α) (s : Shared W U) : Prop := c.Holds (T.truth s)

def Tells (c : Change α) (s s' : Shared W U) : Prop := T.log s' = T.log s ++ [c]

structure Receptive (c : Change α) (s : Shared W U) : Prop where
  isOpen : T.Open s
  steady : T.Steady s
  ready : T.Ready s
  current : T.Current c s

structure Knows (σ : Part α) (s : Shared W U) : Prop where
  steady : T.Steady s
  ready : T.Ready s
  seen : σ.seen → T.Open s

structure Step (σ : Part α) (s : Shared W U) (σ' : Part α) (s' : Shared W U) : Prop where
  steady : T.Steady s'
  keeps : T.Open s → T.Open s'
  seen : σ'.seen → T.Open s'
  log : T.log s' = T.log s ∨ T.Open s ∧ ∃ c, T.Tells c s s'
  changed : ∀ c, T.Current c s' → T.Current c s ∨ T.log s' = T.log s ∧ c ∈ σ'.due
  opened : ¬ T.Open s → T.Open s' → ∀ a ∈ T.truth s', .add a ∈ σ'.due
  due : ∀ c ∈ σ.due, T.Receptive c s → T.Tells c s s' ∨ c ∈ σ'.due

def protocol : Protocol (Part α) L W U where
  Knows σ _ s := T.Knows σ s
  Step σ _ s σ' s' := T.Step σ s σ' s'
  Idle σ := σ.due = ∅
  Start _ o σ' := o = none ∧ σ' = .none

/-- A change that contradicts the truth is told only while a task is bound to tell the
opposite after it. -/
def Timely (c c' : Pool ι L W U β) : Prop :=
  ∀ d, T.Tells d c.shared c'.shared → T.Current d.inverse c.shared →
    ∃ i, Bound (T.Receptive d.inverse) (T.Tells d.inverse) (c.code i)

variable {T} {t : Task L W U β} {σ σ' : Part α} {s s' : Shared W U} {d : Change α}

theorem told_of_log (h : T.log s' = T.log s) : T.told s' = T.told s := by
  rw [told, h, told]

theorem told_of_tells (h : T.Tells d s s') : T.told s' = d.apply (T.told s) := by
  rw [told, h, replay_append, replay_cons, replay_nil, told]

structure Same (T : Telling W U α) (s s' : Shared W U) : Prop where
  steady : T.Steady s → T.Steady s'
  isOpen : T.Open s' ↔ T.Open s
  log : T.log s' = T.log s
  truth : T.truth s' = T.truth s

instance : Std.Refl T.Same := ⟨fun _ ↦ ⟨id, Iff.rfl, rfl, rfl⟩⟩

theorem Same.step (h : T.Same s s') (hknows : T.Knows σ s) (hseen : σ'.seen → T.Open s)
    (hdue : ∀ c ∈ σ.due, T.Receptive c s → c ∈ σ'.due) : T.Step σ s σ' s' where
  steady := h.steady hknows.steady
  keeps := h.isOpen.mpr
  seen hs := h.isOpen.mpr (hseen hs)
  log := .inl h.log
  changed c hc := by
    rw [Current, h.truth] at hc
    exact .inl hc
  opened hclosed hopen := absurd (h.isOpen.mp hopen) hclosed
  due c hc hrec := .inr (hdue c hc hrec)

/-- A change of the truth is one that the task has to tell. -/
theorem step_of_change (hsteady : T.Steady s') (hopen : T.Open s' ↔ T.Open s)
    (hlog : T.log s' = T.log s) (htruth : T.truth s' = d.apply (T.truth s)) :
    T.Step .none s ⟨{d}, False⟩ s' where
  steady := hsteady
  keeps := hopen.mpr
  seen hseen := hseen.elim
  log := .inl hlog
  changed c hc := by
    rw [Current, htruth] at hc
    by_cases hsubject : c.subject = d.subject
    · rcases Change.eq_or_eq_inverse hsubject with rfl | rfl
      · exact .inr ⟨hlog, Set.mem_singleton _⟩
      · exact absurd (d.holds_apply _) (Change.holds_inverse.mp hc)
    · exact .inl ((Change.holds_apply_of_ne (Ne.symm hsubject)).mp hc)
  opened hclosed hopen' := absurd (hopen.mp hopen') hclosed
  due c hc := absurd hc (Set.notMem_empty c)

theorem step_of_tells (hsteady : T.Steady s') (hopen : T.Open s) (hopen' : T.Open s')
    (htells : T.Tells d s s') (htruth : T.truth s' = T.truth s)
    (hdue : ∀ c ∈ σ.due, c = d ∨ c ∈ σ'.due) : T.Step σ s σ' s' where
  steady := hsteady
  keeps _ := hopen'
  seen _ := hopen'
  log := .inr ⟨hopen, d, htells⟩
  changed c hc := by
    rw [Current, htruth] at hc
    exact .inl hc
  opened hclosed := absurd hopen hclosed
  due c hc _ := by
    rcases hdue c hc with rfl | hc'
    · exact .inl htells
    · exact .inr hc'

theorem quiet_telling (σ : Part α) :
    Quiet (T.protocol : Protocol _ L W U) σ T.Same fun _ ↦ True where
  act hknows h := h.step hknows hknows.seen fun _ hc _ ↦ hc
  acquire hknows _ := (Std.Refl.refl _ : T.Same _ _).step hknows hknows.seen fun _ hc _ ↦ hc
  release hknows _ := (Std.Refl.refl _ : T.Same _ _).step hknows hknows.seen fun _ hc _ ↦ hc

theorem bound_of_due {Post : Part α → β → Prop} (hpost : ∀ σ a, Post σ a → σ.due = ∅)
    (hrec : T.Receptive d s) (h : Follows T.protocol Post t σ) (hd : d ∈ σ.due) :
    Bound (T.Receptive d) (T.Tells d) t := by
  have hnext : ∀ {σ s s'} {k : Task L W U β}, d ∈ σ.due → T.Receptive d s →
      (∃ σ', T.Step σ s σ' s' ∧ Follows T.protocol Post k σ') →
      T.Tells d s s' ∨ ∃ σ', Follows T.protocol Post k σ' ∧ d ∈ σ'.due := by
    intro σ s s' k hd hrec hex
    obtain ⟨σ', hstep, hk⟩ := hex
    exact (hstep.due d hd hrec).imp_right fun hd' ↦ ⟨σ', hk, hd'⟩
  have hknows : ∀ {σ s}, T.Receptive d s → T.Knows σ s :=
    fun hrec ↦ ⟨hrec.steady, hrec.ready, fun _ ↦ hrec.isOpen⟩
  induction t generalizing σ with
  | ret a =>
    rw [hpost σ a h] at hd
    exact absurd hd (Set.notMem_empty d)
  | act f k ih =>
    intro s hs
    exact (hnext hd hs (h s (hknows hs))).imp_right fun ⟨σ', hk, hd'⟩ ↦ ih s.world hk hd'
  | lock l m k ih =>
    rcases hnext hd hrec (h s (hknows hrec)) with htells | ⟨σ', hk, hd'⟩
    · exact absurd (List.self_eq_append_right.mp htells) (List.cons_ne_nil d [])
    · exact ih hk hd'
  | unlock l m k ih =>
    rcases hnext hd hrec (h s (hknows hrec)) with htells | ⟨σ', hk, hd'⟩
    · exact absurd (List.self_eq_append_right.mp htells) (List.cons_ne_nil d [])
    · exact ih hk hd'
  | send u k ih =>
    intro s hs
    exact (hnext hd hs (h s (hknows hs))).imp_right fun ⟨σ', hk, hd'⟩ ↦ ih _ hk hd'

variable [DecidableEq ι] [DecidableEq L] {c c' : Pool ι L W U β}
variable {Starts : ι → Option U → Task L W U β → Prop}

def Plays (T : Telling W U α) (Starts : ι → Option U → Task L W U β → Prop) : Prop :=
  ∀ i o t, Starts i o t → o = none ∧ Follows T.protocol (fun σ _ ↦ σ.due = ∅) t .none

structure Begins (T : Telling W U α) (c : Pool ι L W U β) : Prop where
  idle : ∀ i, c.Idle i
  steady : T.Steady c.shared
  closed : ¬ T.Open c.shared
  untold : T.log c.shared = []

def Owed (T : Telling W U α) (d : Change α) (σ : ι → Part α) (c : Pool ι L W U β) : Prop :=
  ∃ i, d ∈ (σ i).due ∨ Bound (T.Receptive d) (T.Tells d) (c.code i)

structure Sound (T : Telling W U α) (σ : ι → Part α) (c : Pool ι L W U β) : Prop where
  follows : c.Follows T.protocol σ
  steady : T.Steady c.shared
  seen : ∀ i, (σ i).seen → T.Open c.shared
  untold : ¬ T.Open c.shared → T.log c.shared = []
  owed : T.Open c.shared → ∀ d, T.Current d c.shared → d.Holds (T.told c.shared) ∨ T.Owed d σ c

def IsSound (T : Telling W U α) (c : Pool ι L W U β) : Prop := ∃ σ, T.Sound σ c

omit [DecidableEq ι] [DecidableEq L] in
theorem Begins.sound (h : T.Begins c) : T.Sound (fun _ ↦ .none) c where
  follows i := by
    obtain ⟨a, ha⟩ := h.idle i
    rw [ha]
    exact .ret rfl
  steady := h.steady
  seen _ hseen := hseen.elim
  untold _ := h.untold
  owed hopen := absurd hopen h.closed

theorem owed_step {σ : ι → Part α} (hrec : T.Receptive d c.shared)
    (hfollows : c.Follows T.protocol σ) (hstep : Pool.Step Starts c c') (howed : T.Owed d σ c)
    (σ' : ι → Part α) : T.Tells d c.shared c'.shared ∨ T.Owed d σ' c' := by
  obtain ⟨i, hdue | hbound⟩ := howed
  · have hbound := bound_of_due (fun _ _ h ↦ h) hrec (hfollows i) hdue
    exact (hbound.step hstep hrec).imp_right fun h ↦ ⟨i, .inr h⟩
  · exact (hbound.step hstep hrec).imp_right fun h ↦ ⟨i, .inr h⟩

theorem owed_of_tells {σ : ι → Part α} {e : Change α} (hrec : T.Receptive d c.shared)
    (hfollows : c.Follows T.protocol σ) (hstep : Pool.Step Starts c c') (htimely : T.Timely c c')
    (htells : T.Tells e c.shared c'.shared)
    (howed : d.Holds (T.told c.shared) ∨ T.Owed d σ c) (σ' : ι → Part α) :
    d.Holds (T.told c'.shared) ∨ T.Owed d σ' c' := by
  have hholds : T.Tells d c.shared c'.shared → d.Holds (T.told c'.shared) := by
    intro h
    rw [told_of_tells h]
    exact d.holds_apply _
  by_cases hsubject : e.subject = d.subject
  · rcases Change.eq_or_eq_inverse hsubject with rfl | rfl
    · exact .inl (hholds htells)
    · have hinverse : d.inverse.inverse = d := by cases d <;> rfl
      obtain ⟨i, hbound⟩ := htimely _ htells (by rw [hinverse]; exact hrec.current)
      rw [hinverse] at hbound
      exact (owed_step hrec hfollows hstep ⟨i, .inr hbound⟩ σ').imp_left hholds
  · rcases howed with h | howed
    · rw [told_of_tells htells]
      exact .inl ((Change.holds_apply_of_ne hsubject).mpr h)
    · exact (owed_step hrec hfollows hstep howed σ').imp_left hholds

theorem Sound.effect {σ : ι → Part α} (h : T.Sound σ c) (hready : T.Ready c.shared) {i : ι}
    {σ' : Part α} {held' : ι → List (Guard L)}
    (hmove : T.protocol.Move c.held i (σ i) c.shared σ' held' s') : T.Step (σ i) c.shared σ' s' := by
  cases hmove with
  | step e _ _ _ hstep => exact hstep
  | start _ hidle hstart =>
    have hdue : (σ i).due = ∅ := hidle
    obtain ⟨-, rfl⟩ := hstart
    refine (Std.Refl.refl _ : T.Same _ _).step ⟨h.steady, hready, h.seen i⟩ False.elim ?_
    simp [hdue]
  | receive u ch _ _ _ hstart => cases hstart.1

theorem Sound.step (hplays : T.Plays Starts) {σ : ι → Part α} (h : T.Sound σ c)
    (hstep : Pool.Step Starts c c') (hready : T.Ready c.shared) (htimely : T.Timely c c') :
    T.IsSound c' := by
  obtain ⟨i, σ', hmove, hfollows⟩ := hstep.refines h.follows
    (fun i _ _ ↦ ⟨h.steady, hready, h.seen i⟩)
    fun i o t _ hstart ↦ ⟨.none, ⟨(hplays i o t hstart).1, rfl⟩, (hplays i o t hstart).2⟩
  have heffect := h.effect hready hmove
  have hdue : ∀ {d}, d ∈ σ'.due → T.Owed d (Function.update σ i σ') c' :=
    fun hd ↦ ⟨i, .inl (by rwa [Function.update_self])⟩
  refine ⟨Function.update σ i σ', hfollows, heffect.steady, fun j ↦ ?_, fun hclosed ↦ ?_,
    fun hopen' d hd ↦ ?_⟩
  · by_cases hj : j = i
    · subst hj
      rw [Function.update_self]
      exact heffect.seen
    · rw [Function.update_of_ne hj]
      exact fun hseen ↦ heffect.keeps (h.seen j hseen)
  · have hclosed₀ : ¬ T.Open c.shared := fun hopen ↦ hclosed (heffect.keeps hopen)
    rw [heffect.log.resolve_right fun hlog ↦ hclosed₀ hlog.1]
    exact h.untold hclosed₀
  · by_cases hopen : T.Open c.shared
    · by_cases hcurrent : T.Current d c.shared
      · have howed := h.owed hopen d hcurrent
        have hrec : T.Receptive d c.shared := ⟨hopen, h.steady, hready, hcurrent⟩
        rcases heffect.log with hlog | ⟨-, e, htells⟩
        · rcases howed with hholds | howed
          · rw [told_of_log hlog]
            exact .inl hholds
          · refine (owed_step hrec h.follows hstep howed _).imp_left fun htells ↦ ?_
            rw [told_of_tells htells]
            exact d.holds_apply _
        · exact owed_of_tells hrec h.follows hstep htimely htells howed _
      · exact .inr (hdue ((heffect.changed d hd).resolve_left hcurrent).2)
    · have hlog := heffect.log.resolve_right fun hlog ↦ hopen hlog.1
      cases d with
      | add a => exact .inr (hdue (heffect.opened hopen hopen' a hd))
      | remove a =>
        rw [told_of_log hlog, told, h.untold hopen]
        exact .inl (Set.notMem_empty a)

omit [DecidableEq ι] [DecidableEq L] in
theorem Sound.told_eq {σ : ι → Part α} (h : T.Sound σ c) (hidle : ∀ i, c.Idle i)
    (hopen : T.Open c.shared) : T.told c.shared = T.truth c.shared := by
  refine Change.eq_of_holds fun d hd ↦ (h.owed hopen d hd).resolve_right fun howed ↦ ?_
  obtain ⟨i, howed⟩ := howed
  have hnone : (σ i).due = ∅ := h.follows.idle (hidle i)
  obtain ⟨a, ha⟩ := hidle i
  rw [ha, hnone] at howed
  exact howed.elim (Set.notMem_empty d) id

/-- Once every task has finished, an open log tells the truth. -/
theorem told_eq_truth (hplays : T.Plays Starts) (hbegins : T.Begins c)
    (hrun : Run (fun c c' ↦ Pool.Step Starts c c' ∧ T.Ready c.shared ∧ T.Timely c c') c c')
    (hidle : ∀ i, c'.Idle i) (hopen : T.Open c'.shared) :
    T.told c'.shared = T.truth c'.shared := by
  obtain ⟨σ, h⟩ : T.IsSound c' := by
    refine hrun.invariant ⟨_, hbegins.sound⟩ ?_
    rintro d d' ⟨σ, h⟩ ⟨hstep, hready, htimely⟩
    exact h.step hplays hstep hready htimely
  exact h.told_eq hidle hopen

end Telling

end Async
