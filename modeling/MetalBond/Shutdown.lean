import MetalBond.Async.Notify
import MetalBond.ClientTasks

namespace MetalBond.Shutdown

open Async Task Collections HashMap
open PeerRemoval (shutdownPeers)

inductive Loop
  | listener
  | manager
  | distributor
  deriving DecidableEq

inductive Actor (κ : Type)
  | shutdown
  | loop (l : Loop)
  | other (k : κ)
  deriving DecidableEq

/-- A loop begins with a clone of the notification. -/
def startup : Code (Except Error Unit) := do
  reading .metalbondState fun _ ↦ ()
  return .ok ()

/-- The bodies of the branches, with the update that was received. -/
inductive Branch : Loop → Option InternalUpdate → Code (Except Error Unit) → Prop
  | accepted : Branch .listener none (do
      let _ ← reading .metalbondState fun w ↦ w.mb.config
      return .ok ())
  | acceptFailed : Branch .listener none (return .ok ())
  | tick : Branch .manager none (return .ok ())
  | update (ord : HashOrder) (u : InternalUpdate) : Branch .distributor (some u) (distribute ord u)

inductive Work {κ : Type} : Actor κ → Option InternalUpdate → Code (Except Error Unit) → Prop
  | other (k : κ) (t : Code (Except Error Unit)) : Work (.other k) none t

/-- The parts of `shutdown`. -/
inductive Phase
  | idle
  | notifying
  /-- Its write guard is in the scrutinee, the listener in the body. -/
  | listener
  | manager
  | peers
  | distributor
  | done
  deriving DecidableEq

def Phase.awaited : Phase → Option Loop
  | .listener => some .listener
  | .manager => some .manager
  | .distributor => some .distributor
  | _ => none

def Phase.Past (p : Phase) : Prop := p ≠ .idle ∧ p ≠ .notifying

structure System (κ : Type) where
  tasks : Tasks (Actor κ)
  phase : Phase
  ear : Loop → Ear

variable {κ : Type}

namespace System

def Joined (s : System κ) (l : Loop) : Prop := s.ear l = .unstarted ∨ s.ear l = .finished

structure Awaits (s : System κ) (l : Loop) : Prop where
  phase : s.phase.awaited = some l
  idle : s.tasks.Idle .shutdown
  started : s.ear l ≠ .unstarted

def Blocked (s : System κ) (l : Loop) : Prop :=
  ∃ lock m t, s.tasks.code (.loop l) = .lock lock m t ∧
    clashes (s.tasks.held .shutdown) lock m = true

/-- `shutdown` waits for a task that missed the signal, or that waits for `shutdown`. -/
def Hangs (s : System κ) : Prop := ∃ l, s.Awaits l ∧ ((s.ear l).Deaf ∨ s.Blocked l)

end System

inductive Advances (s : System κ) : Phase → Code (Except Error Unit) → Prop
  | call (h : s.phase = .idle) :
    Advances s .notifying (do acquire .metalbondState .read; return .ok ())
  | joinListener (h : s.phase = .listener) (hjoined : s.Joined .listener) :
    Advances s .manager (do release .metalbondState .write; return .ok ())
  | joinManager (ord : HashOrder) (h : s.phase = .manager) (hjoined : s.Joined .manager) :
    Advances s .peers (do shutdownPeers ord; return .ok ())
  /-- It looks at the peers again and again, up to a deadline. -/
  | poll (h : s.phase = .peers) : Advances s .peers (do
      let _ ← reading .metalbondState fun w ↦ decide (w.mb.peers.keys = ∅)
      return .ok ())
  | close (h : s.phase = .peers) : Advances s .distributor (return .ok ())
  | joinDistributor (h : s.phase = .distributor) (hjoined : s.Joined .distributor) :
    Advances s .done (return .ok ())

/-- After the notification the read guard is dropped, and the write guard requested. -/
def afterNotify : Code (Except Error Unit) := do
  release .metalbondState .read
  acquire .metalbondState .write
  return .ok ()

/-- A branch that receives an update takes it out of the channel. -/
inductive Takes : Option InternalUpdate → Node → Node → Prop
  | none (n : Node) : Takes none n n
  | some {u : InternalUpdate} {ch : Channel InternalUpdate} {n : Node}
    (h : n.chan.recv = some (u, ch)) : Takes (some u) n { n with chan := ch }

section Step

variable [DecidableEq κ]

namespace System

def hear (s : System κ) (l : Loop) (e : Ear) : System κ :=
  { s with ear := Function.update s.ear l e }

omit [DecidableEq κ] in
@[simp] theorem ear_hear (s : System κ) (l : Loop) (e : Ear) :
    (s.hear l e).ear = Function.update s.ear l e := rfl

def give (s : System κ) (i : Actor κ) (t : Code (Except Error Unit)) (n : Node) : System κ :=
  { s with tasks := s.tasks.set i ⟨s.tasks.held i, t⟩ n }

end System

inductive Step (s : System κ) : System κ → Prop
  | work (c : Tasks (Actor κ)) (h : Pool.Step Work s.tasks c) : Step s { s with tasks := c }
  | spawn (l : Loop) (hphase : s.phase = .idle) (h : s.ear l = .unstarted) :
    Step s ((s.hear l .working).give (.loop l) startup s.tasks.shared)
  /-- `select!` registers a new future. -/
  | enter (l : Loop) (h : s.ear l = .working) (hidle : s.tasks.Idle (.loop l)) :
    Step s (s.hear l (.waiting false))
  /-- Another branch wins, and the future is dropped. -/
  | branch (l : Loop) (woken : Bool) (h : s.ear l = .waiting woken) {o : Option InternalUpdate}
    {t : Code (Except Error Unit)} (hbranch : Branch l o t) {n : Node}
    (htakes : Takes o s.tasks.shared n) : Step s ((s.hear l .working).give (.loop l) t n)
  | leave (l : Loop) (h : s.ear l = .waiting true) : Step s (s.hear l .finished)
  | notify (hphase : s.phase = .notifying) (hidle : s.tasks.Idle .shutdown) :
    Step s { s.give .shutdown afterNotify s.tasks.shared with
      phase := .listener
      ear := fun l ↦ (s.ear l).notified }
  | advance (p : Phase) (t : Code (Except Error Unit)) (h : Advances s p t)
    (hidle : s.tasks.Idle .shutdown) :
    Step s { s.give .shutdown t s.tasks.shared with phase := p }

end Step

/-- Nothing runs, no loop is started, and `shutdown` has not been called. -/
structure Begins (s : System κ) : Prop where
  idle : ∀ i, s.tasks.Idle i
  unguarded : ∀ i, s.tasks.held i = []
  phase : s.phase = .idle
  unstarted : ∀ l, s.ear l = .unstarted

/-- The notification finds every loop that runs in its `select!`, and a loop that it woke takes
no other branch that is ready. -/
structure Heeds (s s' : System κ) : Prop where
  notify : s.phase = .notifying → s'.phase = .listener → ∀ l, s.ear l ≠ .working
  branch : ∀ l, s.ear l = .waiting true → s'.ear l ≠ .working

section Sound

variable [DecidableEq κ] {s s' : System κ} {l : Loop}

theorem idle_give {i j : Actor κ} (hne : i ≠ j) {t : Code (Except Error Unit)} {n : Node} :
    (s.give j t n).tasks.Idle i ↔ s.tasks.Idle i :=
  Pool.idle_set_of_ne _ _ _ _ hne

omit [DecidableEq κ] in
theorem next_hear {e : Ear} (h : Ear.Next (s.ear l) e) (l' : Loop) :
    Ear.Next (s.ear l') ((s.hear l e).ear l') := by
  change Ear.Next (s.ear l') (Function.update s.ear l e l')
  by_cases hl : l' = l
  · subst hl
    rwa [Function.update_self]
  · rw [Function.update_of_ne hl]
    exact .same _

/-- A step is the notification, or the loops go on by themselves. -/
theorem Step.cases (h : Step s s') :
    (s.phase = .notifying ∧ s'.phase = .listener ∧ ∀ l, s'.ear l = (s.ear l).notified) ∨
      (s'.phase.Past ↔ s.phase.Past) ∧ ∀ l, (s.ear l).Next (s'.ear l) := by
  cases h with
  | work c h => exact .inr ⟨.rfl, fun l ↦ .same _⟩
  | spawn l hphase h =>
    refine .inr ⟨.rfl, next_hear ?_⟩
    rw [h]
    exact .spawn
  | enter l h hidle =>
    refine .inr ⟨.rfl, next_hear ?_⟩
    rw [h]
    exact .enter
  | branch l woken h hbranch htakes =>
    refine .inr ⟨.rfl, next_hear ?_⟩
    rw [h]
    exact .branch woken
  | leave l h =>
    refine .inr ⟨.rfl, next_hear ?_⟩
    rw [h]
    exact .leave
  | notify hphase hidle => exact .inl ⟨hphase, rfl, fun l ↦ rfl⟩
  | advance p t h hidle =>
    refine .inr ⟨?_, fun l ↦ .same _⟩
    cases h <;> simp [Phase.Past, *]

/-- No loop is started once `shutdown` has been called. -/
theorem Step.unstarted (hstep : Step s s') (hpast : s.phase.Past) (h : s.ear l = .unstarted) :
    s'.ear l = .unstarted := by
  have hset : ∀ {l' e}, s.ear l' ≠ .unstarted → (s.hear l' e).ear l = .unstarted := by
    intro l' e hl'
    have hne : l ≠ l' := by
      rintro rfl
      exact hl' h
    rwa [System.ear_hear, Function.update_of_ne hne]
  cases hstep with
  | work c hwork => exact h
  | spawn l' hphase hear => exact absurd hphase hpast.1
  | enter l' hear hidle => exact hset (by simp [hear])
  | branch l' woken hear hbranch htakes => exact hset (by simp [hear])
  | leave l' hear => exact hset (by simp [hear])
  | notify hphase hidle => exact absurd hphase hpast.2
  | advance p t hadvances hidle => exact h

/-- A loop that is not on its way has no code, and after the notification none is deaf. -/
structure Sound (s : System κ) : Prop where
  resting : ∀ l, s.ear l ≠ .working → s.tasks.Idle (.loop l)
  woken : ∀ l, s.ear l = .waiting true → s.phase.Past
  heard : s.phase.Past → ∀ l, ¬ (s.ear l).Deaf

omit [DecidableEq κ] in
theorem Begins.sound (h : Begins s) : Sound s :=
  ⟨fun l _ ↦ h.idle (.loop l), fun l hwoken ↦ by simp [h.unstarted l] at hwoken,
    fun hpast ↦ absurd h.phase hpast.1⟩

theorem Step.resting (hstep : Step s s')
    (h : ∀ l, s.ear l ≠ .working → s.tasks.Idle (.loop l)) (l : Loop)
    (hl : s'.ear l ≠ .working) : s'.tasks.Idle (.loop l) := by
  have hset : ∀ {l' t n}, (s.hear l' .working).ear l ≠ .working →
      ((s.hear l' .working).give (.loop l') t n).tasks.Idle (.loop l) := by
    intro l' t n hl
    have hne : l ≠ l' := by
      rintro rfl
      exact hl (Function.update_self ..)
    refine (idle_give (by simpa using hne)).mpr (h l ?_)
    rwa [System.ear_hear, Function.update_of_ne hne] at hl
  cases hstep with
  | work c hwork =>
    -- The loops have no code but what their branches give them.
    refine hwork.idle (fun o t hstart ↦ ?_) (h l hl)
    cases hstart
  | spawn l' hphase hear => exact hset hl
  | enter l' hear hidle =>
    by_cases hl' : l = l'
    · rwa [hl']
    · rw [System.ear_hear, Function.update_of_ne hl'] at hl
      exact h l hl
  | branch l' woken hear hbranch htakes => exact hset hl
  | leave l' hear =>
    by_cases hl' : l = l'
    · apply h l
      rw [hl', hear]
      simp
    · rw [System.ear_hear, Function.update_of_ne hl'] at hl
      exact h l hl
  | notify hphase hidle =>
    refine (idle_give (by simp)).mpr (h l fun hworking ↦ hl ?_)
    exact congrArg Ear.notified hworking
  | advance p t hadvances hidle => exact (idle_give (by simp)).mpr (h l hl)

theorem Step.woken (hstep : Step s s') (h : ∀ l, s.ear l = .waiting true → s.phase.Past) (l : Loop)
    (hl : s'.ear l = .waiting true) : s'.phase.Past := by
  rcases hstep.cases with ⟨-, hphase', -⟩ | ⟨hiff, hnext⟩
  · simp [Phase.Past, hphase']
  · have hbefore := hnext l
    rw [hl] at hbefore
    exact hiff.mpr (h l hbefore.woken)

theorem Step.heard (hstep : Step s s') (hheeds : Heeds s s')
    (h : s.phase.Past → ∀ l, ¬ (s.ear l).Deaf) (hpast : s'.phase.Past) (l : Loop) :
    ¬ (s'.ear l).Deaf := by
  rcases hstep.cases with ⟨hphase, hphase', hear⟩ | ⟨hiff, hnext⟩
  · rw [hear l]
    exact Ear.not_deaf_notified (hheeds.notify hphase hphase' l)
  · have hbefore : s.phase.Past := hiff.mp hpast
    refine (hnext l).not_deaf (h hbefore l) (fun hunstarted ↦ ?_) (hheeds.branch l)
    rw [hstep.unstarted hbefore hunstarted]
    simp

theorem Step.sound (hstep : Step s s') (hheeds : Heeds s s') (h : Sound s) : Sound s' :=
  ⟨hstep.resting h.resting, hstep.woken h.woken, hstep.heard hheeds h.heard⟩

omit [DecidableEq κ] in
theorem System.Awaits.past (h : s.Awaits l) : s.phase.Past := by
  have hawaited := h.phase
  constructor <;> rintro hphase <;> simp [hphase, Phase.awaited] at hawaited

omit [DecidableEq κ] in
theorem Sound.not_hangs (h : Sound s) : ¬ s.Hangs := by
  rintro ⟨l, hawaits, hdeaf | ⟨lock, m, t, hlock, -⟩⟩
  · exact h.heard hawaits.past l hdeaf
  · have hworking : s.ear l ≠ .working := fun hworking ↦
      h.heard hawaits.past l (by rw [hworking]; exact Ear.deaf_working)
    obtain ⟨a, ha⟩ := h.resting l hworking
    rw [hlock] at ha
    cases ha

/-- `shutdown` never waits in vain, as long as the notification finds the loops in their
`select!` and they heed it. -/
theorem never_hangs {s₀ : System κ} (hbegins : Begins s₀)
    (hrun : Run (fun d d' ↦ Step d d' ∧ Heeds d d') s₀ s) : ¬ s.Hangs := by
  have hsound : Sound s := hrun.invariant hbegins.sound fun _ _ h hstep ↦ hstep.1.sound hstep.2 h
  exact hsound.not_hangs

def Missed (l : Loop) (s : System κ) : Prop := s.phase.Past ∧ (s.ear l).Deaf

theorem Step.missed (hstep : Step s s') (h : Missed l s) : Missed l s' := by
  rcases hstep.cases with ⟨hphase, -, -⟩ | ⟨hiff, hnext⟩
  · exact absurd hphase h.1.2
  · exact ⟨hiff.mpr h.1, (hnext l).deaf h.2⟩

/-- Without it, `shutdown` hangs when it gets to the handle of the loop, and from then on. -/
theorem hangs_of_missed (h : Missed l s) (hrun : Run Step s s') (hawaits : s'.Awaits l) :
    s'.Hangs := by
  have hmissed : Missed l s' := hrun.invariant h fun _ _ h hstep ↦ hstep.missed h
  exact ⟨l, hawaits, .inl hmissed.2⟩

/-- The first step that does not heed the notification leaves a loop that missed it. -/
theorem Sound.missed_of_not_heeds (h : Sound s) (hstep : Step s s') (hheeds : ¬ Heeds s s') :
    ∃ l, Missed l s' := by
  by_contra hnone
  refine hheeds ⟨fun hphase hphase' l hworking ↦ hnone ⟨l, ?_⟩, fun l hwoken hworking ↦ hnone ⟨l, ?_⟩⟩
  · rcases hstep.cases with ⟨-, -, hear⟩ | ⟨hiff, -⟩
    · refine ⟨by simp [Phase.Past, hphase'], ?_⟩
      rw [hear l, hworking]
      exact Ear.deaf_working
    · have hpast : s'.phase.Past := by simp [Phase.Past, hphase']
      exact absurd hphase (hiff.mp hpast).2
  · rcases hstep.cases with ⟨-, -, hear⟩ | ⟨hiff, -⟩
    · rw [hear l, hwoken] at hworking
      cases hworking
    · refine ⟨hiff.mpr (h.woken l hwoken), ?_⟩
      rw [hworking]
      exact Ear.deaf_working

end Sound

namespace Sample

open MetalBond.Sample

def start : System Unit := ⟨⟨fun _ ↦ ⟨[], .ret (.ok ())⟩, node true⟩, .idle, fun _ ↦ .unstarted⟩

theorem begins_start : Begins start := ⟨fun _ ↦ ⟨_, rfl⟩, fun _ ↦ rfl, rfl, fun _ ↦ rfl⟩

theorem run_work {c c' : Tasks (Actor Unit)} (hrun : Run (Pool.Step Work) c c') (phase : Phase)
    (ear : Loop → Ear) :
    Run (fun d d' ↦ Step d d' ∧ Heeds d d') (⟨c, phase, ear⟩ : System Unit) ⟨c', phase, ear⟩ := by
  let state : Tasks (Actor Unit) → System Unit := fun c ↦ ⟨c, phase, ear⟩
  refine Relation.ReflTransGen.lift state (fun d d' hstep ↦ ?_) c c' hrun
  refine ⟨.work d' hstep, fun hphase hphase' ↦ ?_, fun l hwoken hworking ↦ ?_⟩
  · cases hphase.symm.trans hphase'
  · cases hwoken.symm.trans hworking

theorem run_code {c : Tasks (Actor Unit)} {i : Actor Unit} (hothers : ∀ j, j ≠ i → c.held j = [])
    {a : Except Error Unit} {held' : List (Guard Lock)} {n : Node}
    (hexec : exec (c.held i) (c.code i) c.shared = .done a held' n) (phase : Phase)
    (ear : Loop → Ear) :
    Run (fun d d' ↦ Step d d' ∧ Heeds d d') (⟨c, phase, ear⟩ : System Unit)
      ⟨c.set i ⟨held', .ret a⟩ n, phase, ear⟩ :=
  run_work (Pool.run_rest hothers hexec) phase ear

def only (e : Ear) : Loop → Ear := Function.update (fun _ ↦ .unstarted) .listener e

theorem update_only (e e' : Ear) : Function.update (only e) .listener e' = only e' :=
  Function.update_idem ..

structure Called (c : Tasks (Actor Unit)) : Prop where
  idle : c.Idle .shutdown
  guard : c.held .shutdown = [(.metalbondState, .read)]
  others : ∀ i, i ≠ .shutdown → c.held i = []

theorem exists_called : ∃ c, Called c ∧
    Run (fun d d' ↦ Step d d' ∧ Heeds d d') start ⟨c, .notifying, only (.waiting false)⟩ := by
  let n := start.tasks.shared
  let c₁ := start.tasks.set (.loop .listener) ⟨[], startup⟩ n
  let c₂ := c₁.set (.loop .listener) ⟨[], .ret (.ok ())⟩ n
  let c₃ := c₂.set .shutdown ⟨[], do acquire .metalbondState .read; return .ok ()⟩ n
  let c₄ := c₃.set .shutdown ⟨[(.metalbondState, .read)], .ret (.ok ())⟩ n
  have hheld₁ : ∀ i, c₁.held i = [] := Pool.unguarded_set (fun _ ↦ rfl) _ _ _
  have hheld₂ : ∀ i, c₂.held i = [] := Pool.unguarded_set hheld₁ _ _ _
  have hheld₃ : ∀ i, c₃.held i = [] := Pool.unguarded_set hheld₂ _ _ _
  have hspawn : Step start ⟨c₁, .idle, only .working⟩ := .spawn .listener rfl rfl
  have hstartup : Run (fun d d' ↦ Step d d' ∧ Heeds d d') (⟨c₁, .idle, only .working⟩ : System Unit)
      ⟨c₂, .idle, only .working⟩ := run_code (fun j _ ↦ hheld₁ j) rfl _ _
  have henter : Step (⟨c₂, .idle, only .working⟩ : System Unit) ⟨c₂, .idle, only (.waiting false)⟩ := by
    have hstep : Step (⟨c₂, .idle, only .working⟩ : System Unit) _ := .enter .listener rfl ⟨_, rfl⟩
    rwa [System.hear, update_only] at hstep
  have hcall : Step (⟨c₂, .idle, only (.waiting false)⟩ : System Unit)
      ⟨c₃, .notifying, only (.waiting false)⟩ := .advance _ _ (.call rfl) ⟨_, rfl⟩
  have hlock : Run (fun d d' ↦ Step d d' ∧ Heeds d d')
      (⟨c₃, .notifying, only (.waiting false)⟩ : System Unit) ⟨c₄, .notifying, only (.waiting false)⟩ :=
    run_code (fun j _ ↦ hheld₃ j) rfl _ _
  have hquiet : ∀ {s s' : System Unit}, s.phase = .idle → (∀ l, s.ear l ≠ .waiting true) → Heeds s s' :=
    fun hphase hear ↦ ⟨fun hphase' ↦ by simp [hphase] at hphase', fun l hwoken ↦ absurd hwoken (hear l)⟩
  refine ⟨c₄, ⟨⟨_, rfl⟩, rfl, fun i hi ↦ ?_⟩, ?_⟩
  · rw [Pool.held_set, Function.update_of_ne hi, hheld₃ i]
  · have hunwoken : ∀ l, only .working l ≠ .waiting true ∧ only (.waiting false) l ≠ .waiting true := by
      intro l
      cases l <;> simp [only]
    have hfrom := Run.cons ⟨henter, hquiet rfl fun l ↦ (hunwoken l).1⟩
      (Run.cons ⟨hcall, hquiet rfl fun l ↦ (hunwoken l).2⟩ hlock)
    exact Run.cons ⟨hspawn, hquiet rfl fun l ↦ by simp [start]⟩ (hstartup.trans hfrom)

theorem run_notify {c : Tasks (Actor Unit)} (h : Called c) (ear : Loop → Ear) : ∃ c',
    c'.Idle .shutdown ∧ c'.held .shutdown = [(.metalbondState, .write)] ∧
      c'.code (.loop .listener) = c.code (.loop .listener) ∧
      Run (fun d d' ↦ Step d d' ∧ ((∀ l, ear l ≠ .working) → Heeds d d'))
        (⟨c, .notifying, ear⟩ : System Unit) ⟨c', .listener, fun l ↦ (ear l).notified⟩ := by
  let c₁ := c.set .shutdown ⟨c.held .shutdown, afterNotify⟩ c.shared
  let c₂ := c₁.set .shutdown ⟨[(.metalbondState, .write)], .ret (.ok ())⟩ c.shared
  have hothers : ∀ i, i ≠ .shutdown → c₁.held i = [] := by
    intro i hi
    rw [Pool.held_set, Function.update_of_ne hi, h.others i hi]
  have hexec : exec (c₁.held .shutdown) (c₁.code .shutdown) c.shared =
      .done (.ok ()) [(.metalbondState, .write)] c.shared := by
    rw [Pool.held_set, Pool.code_set, Function.update_self, Function.update_self, h.guard]
    rfl
  have hnotify : Step (⟨c, .notifying, ear⟩ : System Unit) ⟨c₁, .listener, fun l ↦ (ear l).notified⟩ :=
    .notify rfl h.idle
  have hheeds : ∀ {s' : System Unit}, (∀ l, s'.ear l = (ear l).notified) →
      (∀ l, ear l ≠ .working) → Heeds (⟨c, .notifying, ear⟩ : System Unit) s' := by
    intro s' hear hworking
    refine ⟨fun _ _ ↦ hworking, fun l _ ↦ ?_⟩
    rw [hear l]
    exact Ear.notified_ne_working (hworking l)
  refine ⟨c₂, ⟨.ok (), ?_⟩, ?_, ?_, Run.cons ⟨hnotify, hheeds fun _ ↦ rfl⟩
    ((run_code hothers hexec _ _).mono fun _ _ hstep ↦ ⟨hstep.1, fun _ ↦ hstep.2⟩)⟩
  · rw [Pool.code_set, Function.update_self]
  · rw [Pool.held_set, Function.update_self]
  · rw [Pool.code_set, Function.update_of_ne (by simp), Pool.code_set, Function.update_of_ne (by simp)]

/-- A listener in its `select!` is woken, and `shutdown` waits until it has finished. -/
theorem never_hangs_waiting : ∃ s : System Unit,
    Run (fun d d' ↦ Step d d' ∧ Heeds d d') start s ∧ s.Awaits .listener ∧
      s.ear .listener = .waiting true ∧ ¬ s.Hangs := by
  obtain ⟨c, hcalled, hrun⟩ := exists_called
  obtain ⟨c', hidle, -, -, hrun'⟩ := run_notify hcalled (only (.waiting false))
  have hear : ∀ l, only (.waiting false) l ≠ .working := by
    intro l
    cases l <;> simp [only]
  have hall := hrun.trans (hrun'.mono fun _ _ hstep ↦ ⟨hstep.1, hstep.2 hear⟩)
  exact ⟨_, hall, ⟨rfl, hidle, nofun⟩, rfl, never_hangs begins_start hall⟩

/-- A listener that has just accepted a connection misses the notification, and waits for the guard
of `shutdown`, which waits for the listener. -/
theorem listener_missed : ∃ s : System Unit, Begins start ∧ Run Step start s ∧
    s.Awaits .listener ∧ (s.ear .listener).Deaf ∧ s.Blocked .listener ∧ s.Hangs := by
  obtain ⟨c, hcalled, hrun⟩ := exists_called
  let accepting : Code (Except Error Unit) := do
    let _ ← reading .metalbondState fun w ↦ w.mb.config
    return .ok ()
  let d := c.set (.loop .listener) ⟨c.held (.loop .listener), accepting⟩ c.shared
  have haccept : Step (⟨c, .notifying, only (.waiting false)⟩ : System Unit)
      ⟨d, .notifying, only .working⟩ := by
    have hstep : Step (⟨c, .notifying, only (.waiting false)⟩ : System Unit) _ :=
      .branch .listener false rfl .accepted (.none _)
    rwa [System.hear, update_only] at hstep
  have hd : Called d := by
    have hheld : d.held = c.held := by
      rw [Pool.held_set, Function.update_eq_self]
    refine ⟨?_, by rw [hheld, hcalled.guard], fun i hi ↦ by rw [hheld, hcalled.others i hi]⟩
    obtain ⟨a, ha⟩ := hcalled.idle
    exact ⟨a, by rw [Pool.code_set, Function.update_of_ne (by simp), ha]⟩
  obtain ⟨c', hidle, hguard, hcode, hrun'⟩ := run_notify hd (only .working)
  have hawaits : System.Awaits (⟨c', .listener, fun l ↦ (only .working l).notified⟩ : System Unit)
      .listener := ⟨rfl, hidle, nofun⟩
  have hall := (hrun.mono fun _ _ h ↦ h.1).trans (Run.cons haccept (hrun'.mono fun _ _ h ↦ h.1))
  have hlock : c'.code (.loop .listener) = accepting := by
    rw [hcode, Pool.code_set, Function.update_self]
  have hclash : clashes (c'.held .shutdown) .metalbondState .read = true := by
    rw [hguard]
    rfl
  exact ⟨_, begins_start, hall, hawaits, Ear.deaf_working, ⟨_, _, _, hlock, hclash⟩,
    ⟨_, hawaits, .inl Ear.deaf_working⟩⟩

end Sample

end MetalBond.Shutdown
