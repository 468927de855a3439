import MetalBond.ConnectionTasks
import MetalBond.RoundExec

namespace MetalBond.Teardown

open Async Task Collections HashMap Peer

inductive Actor (κ : Type)
  | caller (k : κ)
  | distributor
  | connection (id : PeerId)
  deriving DecidableEq

/-- The tasks, and the remote addresses of the connections in the order of their acceptance. -/
structure Server (κ : Type) where
  tasks : Pool (Actor κ) Lock World InternalUpdate Progress
  accepted : List SocketAddr

/-- What may start when nothing else of the actor runs; the task of a connection is only spawned. -/
inductive Work {κ : Type} : Actor κ → Option InternalUpdate → Code Progress → Prop
  | distribute (ord : HashOrder) (u : InternalUpdate) :
    Work .distributor (some u) (do let _ ← distribute ord u; return .returned)
  | call (k : κ) {t : Code (Except Error Unit)} (h : Call t) :
    Work (.caller k) none (do let _ ← t; return .returned)

variable {κ : Type}

namespace Server

def node (s : Server κ) : Node := s.tasks.shared

def code (s : Server κ) (id : PeerId) : Code Progress := s.tasks.code (.connection id)

def nextPeer (s : Server κ) (addr : SocketAddr) : Peer :=
  ⟨s.accepted.length, s.node.world.mb.config, addr, .incoming⟩

structure Live (s : Server κ) (id : PeerId) (addr : SocketAddr) : Prop where
  accepted : s.accepted[id]? = some addr
  running : ∀ progress, s.code id = .ret progress → progress = .waiting

end Server

section Step

variable [DecidableEq κ]

inductive Step (s : Server κ) : Server κ → Prop
  | work (c : Pool (Actor κ) Lock World InternalUpdate Progress) (h : Pool.Step Work s.tasks c) :
    Step s ⟨c, s.accepted⟩
  /-- The listener accepts a connection and spawns its task. -/
  | accept (addr : SocketAddr) (ord : HashOrder) (rounds : List Round) :
    Step s ⟨s.tasks.set (.connection s.accepted.length)
      ⟨[], serveConnection ord (s.nextPeer addr) rounds⟩ s.node, s.accepted ++ [addr]⟩

end Step

structure Begins (s : Server κ) : Prop where
  idle : ∀ i, s.tasks.Idle i
  unguarded : ∀ i, s.tasks.held i = []
  accepted : s.accepted = []
  new : ∃ config, s.node.world.mb = .new config true

/-- A connection is accepted only when no other of the same remote address is live. -/
def AcceptsFresh (s s' : Server κ) : Prop :=
  ∀ addr, s'.accepted = s.accepted ++ [addr] → ∀ id, ¬ s.Live id addr

structure Moves [DecidableEq κ] (id : PeerId) (s s' : Server κ) : Prop where
  step : Step s s'
  moved : s'.code id ≠ s.code id

section Sound

variable [DecidableEq κ] {s s' : Server κ} {id : PeerId} {addr : SocketAddr}

theorem step_code {c : Pool (Actor κ) Lock World InternalUpdate Progress}
    (h : Pool.Step Work s.tasks c) (id : PeerId) : c.code (.connection id) = s.code id ∨
      ∃ e, Task.Move (s.code id) s.node e (c.code (.connection id)) c.shared := by
  rcases h.code (.connection id) with heq | hmove | ⟨o, -, hwork⟩
  · exact .inl heq
  · exact .inr hmove
  · cases hwork

/-- The task of every connection minds its own address, and the live ones differ in it. -/
structure Sound (s : Server κ) : Prop where
  confined : ∀ (id : PeerId) (addr : SocketAddr), s.accepted[id]? = some addr →
    Confined (Minds addr) (s.code id)
  distinct : ∀ id id' addr, s.Live id addr → s.Live id' addr → id = id'

omit [DecidableEq κ] in
theorem Begins.sound (h : Begins s) : Sound s := by
  have hnone : ∀ (id : PeerId) (addr : SocketAddr), s.accepted[id]? ≠ some addr := by
    intro id addr
    rw [h.accepted]
    simp
  exact ⟨fun id addr hid ↦ absurd hid (hnone id addr), fun id _ addr hid _ ↦
    absurd hid.accepted (hnone id addr)⟩

theorem live_of_work {c : Pool (Actor κ) Lock World InternalUpdate Progress}
    (h : Pool.Step Work s.tasks c) (hlive : Server.Live ⟨c, s.accepted⟩ id addr) :
    s.Live id addr := by
  refine ⟨hlive.accepted, fun progress hret ↦ ?_⟩
  rcases step_code h id with heq | ⟨e, hmove⟩
  · exact hlive.running progress (heq.trans hret)
  · rw [hret] at hmove
    cases hmove

theorem accepted_append {l : List SocketAddr} {addr addr' : SocketAddr} {id : PeerId}
    (h : (l ++ [addr])[id]? = some addr') :
    id ≠ l.length ∧ l[id]? = some addr' ∨ id = l.length ∧ addr' = addr := by
  rcases Nat.lt_trichotomy id l.length with hid | rfl | hid
  · rw [List.getElem?_append_left hid] at h
    exact .inl ⟨Nat.ne_of_lt hid, h⟩
  · rw [List.getElem?_concat_length] at h
    exact .inr ⟨rfl, (Option.some.inj h).symm⟩
  · rw [List.getElem?_eq_none (by rw [List.length_append, List.length_singleton]; omega)] at h
    cases h

theorem Step.sound (hstep : Step s s') (hfresh : AcceptsFresh s s') (h : Sound s) : Sound s' := by
  cases hstep with
  | work c hwork =>
    refine ⟨fun id addr hid ↦ ?_, fun id id' addr hid hid' ↦ ?_⟩
    · have hold := h.confined id addr hid
      change Confined (Minds addr) (c.code (.connection id))
      rcases step_code hwork id with heq | ⟨e, hmove⟩
      · rwa [heq]
      · exact (hold.move hmove).2
    · exact h.distinct id id' addr (live_of_work hwork hid) (live_of_work hwork hid')
  | accept addr ord rounds =>
    let s' : Server κ := ⟨s.tasks.set (.connection s.accepted.length)
      ⟨[], serveConnection ord (s.nextPeer addr) rounds⟩ s.node, s.accepted ++ [addr]⟩
    have hcode : ∀ id, id ≠ s.accepted.length → s'.code id = s.code id := by
      intro id hid
      rw [Server.code, Pool.code_set, Function.update_of_ne (by simpa using hid)]
      rfl
    have hlive : ∀ {id addr'}, s'.Live id addr' →
        s.Live id addr' ∨ id = s.accepted.length ∧ addr' = addr := by
      intro id addr' hlive
      rcases accepted_append hlive.accepted with ⟨hid, haccepted⟩ | hnew
      · refine .inl ⟨haccepted, fun progress hret ↦ hlive.running progress ?_⟩
        rw [hcode id hid, hret]
      · exact .inr hnew
    refine ⟨fun id addr' hid ↦ ?_, fun id id' addr' hid hid' ↦ ?_⟩
    · rcases accepted_append hid with ⟨hne, hold⟩ | ⟨rfl, rfl⟩
      · rw [hcode id hne]
        exact h.confined id addr' hold
      · rw [Server.code, Pool.code_set, Function.update_self]
        exact minds_serveConnection ord (s.nextPeer addr') rounds
    · rcases hlive hid with hold | ⟨rfl, rfl⟩
      · rcases hlive hid' with hold' | ⟨rfl, rfl⟩
        · exact h.distinct id id' addr' hold hold'
        · exact absurd hold (hfresh addr' rfl id)
      · rcases hlive hid' with hold' | ⟨rfl, -⟩
        · exact absurd hold' (hfresh addr' rfl id')
        · rfl

theorem sound_run (hbegins : Begins s)
    (hrun : Run (fun d d' ↦ Step d d' ∧ AcceptsFresh d d') s s') : Sound s' :=
  hrun.invariant hbegins.sound fun _ _ h hstep ↦ hstep.1.sound hstep.2 h

theorem Moves.minds (h : Moves id s s') (hsound : Sound s) (haccepted : s.accepted[id]? = some addr) :
    Minds addr s.node s'.node := by
  have hmoved := h.moved
  cases h.step with
  | work c hwork =>
    rcases step_code hwork id with heq | ⟨e, hmove⟩
    · exact absurd heq hmoved
    · exact ((hsound.confined id addr haccepted).move hmove).1
  | accept other ord rounds =>
    have hid : id ≠ s.accepted.length := by
      rintro rfl
      simp at haccepted
    refine absurd ?_ hmoved
    rw [Server.code, Pool.code_set, Function.update_of_ne (by simpa using hid)]
    rfl

/-- As long as no connection is accepted from the address of a live one, what the task of a
connection does, its teardown included, leaves all that belongs to another live one in place. -/
theorem teardown_spares {s₀ : Server κ} {id' : PeerId} {addr' : SocketAddr} (hbegins : Begins s₀)
    (hrun : Run (fun d d' ↦ Step d d' ∧ AcceptsFresh d d') s₀ s) (hlive : s.Live id addr)
    (hother : s.Live id' addr') (hne : id ≠ id') (hmoves : Moves id s s') :
    Spares addr' s.node s'.node := by
  have hsound := sound_run hbegins hrun
  refine (hmoves.minds hsound hlive.accepted).others addr' ?_
  rintro rfl
  exact hne (hsound.distinct id id' addr hlive hother)

end Sound

namespace Sample

open MetalBond.Sample

def server : Server Unit := ⟨⟨fun _ ↦ ⟨[], .ret .returned⟩, node true⟩, []⟩

theorem begins_server : Begins server := ⟨fun _ ↦ ⟨_, rfl⟩, fun _ ↦ rfl, rfl, ⟨default, rfl⟩⟩

def closing : List Round := [⟨false, .frame .eof, 0, 0⟩, ⟨false, .shutdown, 0, 0⟩]

theorem exec_setState_unestablished (ord : HashOrder) (p : Peer) {s : Node}
    {newState : ConnectionState} (hold : (p.cellOf s).state ≠ .established)
    (hnew : newState ≠ .established) : exec [] (p.setState ord newState) s =
      .done () [] (p.withCell s { p.cellOf s with state := newState }) := by
  by_cases hne : (p.cellOf s).state = newState
  · subst hne
    rw [exec_setState_self]
    exact congrArg (Outcome.done () []) (withCell_cellOf p s).symm
  · rw [exec_setState_enter ord p s hne hold, entered, if_neg hnew]

theorem exec_handlePeer_closing (ord : HashOrder) {p : Peer} (hp : p.direction = .incoming)
    {s : Node} (hold : (p.cellOf s).state ≠ .established) : ∃ s',
      exec [] (p.handlePeer ord closing) s = .done .returned [] s' ∧
        s'.world.mb = s.world.mb := by
  let s₁ := p.withCell s { p.cellOf s with state := .connecting }
  let s₂ := p.withCell s₁ { p.cellOf s₁ with state := .closed }
  let s₃ := p.withCell s₂ { p.cellOf s₂ with shutdownSignal := true }
  let s₄ := p.withCell s₃ { p.cellOf s₃ with shutdownSignal := false }
  let s₅ := p.withCell s₄ { p.cellOf s₄ with state := .closed }
  have hstart : exec [] (p.startPeer ord) s = .done true [] s₁ := by
    have hconnecting := @exec_setState_unestablished ord p s .connecting hold nofun
    rw [startPeer, hp]
    simp only [exec_bind, hconnecting]
    rfl
  have heof : exec [] (p.selectRound ord ⟨false, .frame .eof, 0, 0⟩ .off) s₁ =
      .done (.again .off) [] s₃ := by
    have hclosed := @exec_setState_unestablished ord p s₁ .closed (by simp [s₁]) nofun
    simp only [selectRound, handleBranch, closeAndTrigger, exec_bind, hclosed]
    rfl
  have hshutdown : exec [] (p.selectRound ord ⟨false, .shutdown, 0, 0⟩ .off) s₃ =
      .done .returned [] s₅ := by
    have hclosed := @exec_setState_unestablished ord p s₄ .closed (by simp [s₄, s₃, s₂]) nofun
    simp only [selectRound, handleBranch, exec_bind, exec_modify, Outcome.done_andThen]
    exact congrArg (Outcome.andThen · _) hclosed
  refine ⟨{ s₅ with world := Losses.dropReceiver p s₅.world }, ?_, rfl⟩
  simp only [handlePeer, closing, handleRounds, exec_bind, hstart, heof, hshutdown,
    Outcome.done_andThen, if_true]
  rfl

theorem run_work {c c' : Pool (Actor Unit) Lock World InternalUpdate Progress}
    (hrun : Run (Pool.Step Work) c c') (l : List SocketAddr) :
    Run (fun d d' ↦ Step d d' ∧ AcceptsFresh d d') (⟨c, l⟩ : Server Unit) ⟨c', l⟩ := by
  refine Relation.ReflTransGen.lift (fun c ↦ (⟨c, l⟩ : Server Unit)) (fun d d' hstep ↦ ?_) c c' hrun
  refine ⟨.work d' hstep, fun addr hlist ↦ ?_⟩
  have hlength := congrArg List.length hlist
  simp at hlength

theorem run_code {c : Pool (Actor Unit) Lock World InternalUpdate Progress} {i : Actor Unit}
    (hothers : ∀ j, j ≠ i → c.held j = []) {β : Type} {t : Code β} {g : β → Code Progress} {b : β}
    {held' : List (Guard Lock)} {s : Node} (hcode : c.code i = t >>= g)
    (hexec : exec (c.held i) t c.shared = .done b held' s) (l : List SocketAddr) :
    Run (fun d d' ↦ Step d d' ∧ AcceptsFresh d d') (⟨c, l⟩ : Server Unit)
      ⟨c.set i ⟨held', g b⟩ s, l⟩ :=
  run_work (Pool.run_part hothers hcode hexec) l

/-- Two connections are accepted; the first is closed, and its task is about to take its address
out of the map. -/
structure Overlap (a b : SocketAddr) (s s' : Server Unit) : Prop where
  run : Run (fun d d' ↦ Step d d' ∧ (a ≠ b → AcceptsFresh d d')) server s
  first : s.Live 0 a
  second : s.Live 1 b
  moves : Moves 0 s s'
  entry : s.node.world.mb.peers.lookup b = some ⟨1, default, b, .incoming⟩
  erased : s'.node.world.mb.peers = s.node.world.mb.peers.erase a

def serving (ord : HashOrder) (p : Peer) : Code Progress := do
  match ← p.handlePeer ord closing with
  | .returned =>
    erasePeer p.remoteAddr
    return .returned
  | r => return r

def finishing (a : SocketAddr) : Progress → Code Progress
  | .returned => do
    erasePeer a
    return .returned
  | r => return r

def erased : Code Progress := do
  release .metalbondState .write
  return .returned

def eraseEntry (a : SocketAddr) (w : World) : World :=
  w.modifyMb fun mb ↦ { mb with peers := mb.peers.erase a }

def erasing (a : SocketAddr) : Code Progress := do
  modify (eraseEntry a)
  erased

theorem exists_overlap (a b : SocketAddr) : ∃ s s', Overlap a b s s' := by
  let p : Peer := ⟨0, default, a, .incoming⟩
  let q : Peer := ⟨1, default, b, .incoming⟩
  let n₁ : Node := (exec [] (do p.create; insertPeer p) (node true)).shared
  let n₂ : Node := (exec [] (serveConnection default q []) n₁).shared
  obtain ⟨n₃, hexec, hmb⟩ := @exec_handlePeer_closing default p rfl n₂ nofun
  let c₁ := server.tasks.set (.connection 0) ⟨[], serveConnection default p closing⟩ (node true)
  let c₂ := c₁.set (.connection 0) ⟨[], serving default p⟩ n₁
  let c₃ := c₂.set (.connection 1) ⟨[], serveConnection default q []⟩ n₁
  let c₄ := c₃.set (.connection 1) ⟨[], .ret .waiting⟩ n₂
  let c₅ := c₄.set (.connection 0) ⟨[], do erasePeer a; return .returned⟩ n₃
  let c₆ := c₅.set (.connection 0) ⟨[(.metalbondState, .write)], erasing a⟩ n₃
  let c₇ := c₅.set (.connection 0) ⟨[(.metalbondState, .write)], erased⟩
    { n₃ with world := eraseEntry a n₃.world }
  have hheld₁ : ∀ i, c₁.held i = [] := Pool.unguarded_set (fun _ ↦ rfl) _ _ _
  have hheld₂ : ∀ i, c₂.held i = [] := Pool.unguarded_set hheld₁ _ _ _
  have hheld₃ : ∀ i, c₃.held i = [] := Pool.unguarded_set hheld₂ _ _ _
  have hheld₄ : ∀ i, c₄.held i = [] := Pool.unguarded_set hheld₃ _ _ _
  have hheld₅ : ∀ i, c₅.held i = [] := Pool.unguarded_set hheld₄ _ _ _
  have haccept₁ : Step server ⟨c₁, [a]⟩ := .accept a default closing
  have henter : Run (fun d d' ↦ Step d d' ∧ AcceptsFresh d d') (⟨c₁, [a]⟩ : Server Unit)
      ⟨c₂, [a]⟩ :=
    run_code (t := do p.create; insertPeer p) (g := fun _ ↦ serving default p)
      (fun j _ ↦ hheld₁ j) rfl rfl _
  have haccept₂ : Step (⟨c₂, [a]⟩ : Server Unit) ⟨c₃, [a, b]⟩ := .accept b default []
  have hserve : Run (fun d d' ↦ Step d d' ∧ AcceptsFresh d d') (⟨c₃, [a, b]⟩ : Server Unit)
      ⟨c₄, [a, b]⟩ :=
    run_code (t := serveConnection default q []) (g := .ret) (fun j _ ↦ hheld₃ j)
      (bind_ret _).symm rfl _
  have hclose : Run (fun d d' ↦ Step d d' ∧ AcceptsFresh d d') (⟨c₄, [a, b]⟩ : Server Unit)
      ⟨c₅, [a, b]⟩ :=
    run_code (i := .connection 0) (g := finishing a) (fun j _ ↦ hheld₄ j) rfl hexec _
  have hlock : Run (fun d d' ↦ Step d d' ∧ AcceptsFresh d d') (⟨c₅, [a, b]⟩ : Server Unit)
      ⟨c₆, [a, b]⟩ :=
    run_code (t := acquire .metalbondState .write) (g := fun _ ↦ erasing a)
      (fun j _ ↦ hheld₅ j) rfl rfl _
  have herase : Pool.Step Work c₆ c₇ :=
    Pool.step_act (fun j _ ↦ hheld₅ j) (eraseEntry a) fun _ ↦ erased
  have hfresh : ∀ {s s' : Server Unit}, Run (fun d d' ↦ Step d d' ∧ AcceptsFresh d d') s s' →
      Run (fun d d' ↦ Step d d' ∧ (a ≠ b → AcceptsFresh d d')) s s' :=
    fun hrun ↦ hrun.mono fun _ _ h ↦ ⟨h.1, fun _ ↦ h.2⟩
  have hfirst : AcceptsFresh server ⟨c₁, [a]⟩ := by
    intro addr _ id hlive
    cases hlive.accepted
  have hsecond : a ≠ b → AcceptsFresh (⟨c₂, [a]⟩ : Server Unit) ⟨c₃, [a, b]⟩ := by
    intro hne addr hlist id hlive
    have haddr : b = addr := by simpa using hlist
    have hmem := List.mem_of_getElem? hlive.accepted
    exact hne ((List.mem_singleton.mp hmem).symm.trans haddr.symm)
  refine ⟨⟨c₆, [a, b]⟩, ⟨c₇, [a, b]⟩, ?_, ⟨rfl, ?_⟩, ⟨rfl, ?_⟩, ⟨.work c₇ herase, ?_⟩, ?_, rfl⟩
  · exact .trans (Run.cons ⟨haccept₁, fun _ ↦ hfirst⟩ (hfresh henter))
      (Run.cons ⟨haccept₂, hsecond⟩ ((hfresh hserve).trans ((hfresh hclose).trans (hfresh hlock))))
  · rintro progress hret
    cases hret
  · rintro progress hret
    cases hret
    rfl
  · exact Task.ne_act (eraseEntry a) (fun _ ↦ erased) n₃.world
  · change n₃.world.mb.peers.lookup b = _
    rw [hmb]
    exact Finmap.lookup_insert _

theorem teardown_spares_sample : ∃ s s', Overlap (addr 1) (addr 2) s s' ∧
    Spares (addr 2) s.node s'.node := by
  obtain ⟨s, s', h⟩ := exists_overlap (addr 1) (addr 2)
  have hne : addr 1 ≠ addr 2 := by decide
  have hrun : Run (fun d d' ↦ Step d d' ∧ AcceptsFresh d d') server s :=
    h.run.mono fun _ _ hstep ↦ ⟨hstep.1, hstep.2 hne⟩
  exact ⟨s, s', h, teardown_spares begins_server hrun h.first h.second Nat.zero_ne_one h.moves⟩

/-- Two connections from one address: with the first, the second loses its entry. -/
theorem entry_lost : ∃ s s' : Server Unit, Begins server ∧ Run Step server s ∧ s.Live 0 (addr 1) ∧
    s.Live 1 (addr 1) ∧ Moves 0 s s' ∧
    s.node.world.mb.peers.lookup (addr 1) = some ⟨1, default, addr 1, .incoming⟩ ∧
    addr 1 ∉ s'.node.world.mb.peers ∧ ¬ Spares (addr 1) s.node s'.node := by
  obtain ⟨s, s', h⟩ := exists_overlap (addr 1) (addr 1)
  have hlost : addr 1 ∉ s'.node.world.mb.peers := by
    rw [h.erased]
    exact Finmap.notMem_erase_self
  refine ⟨s, s', begins_server, h.run.mono fun _ _ hstep ↦ hstep.1, h.first, h.second, h.moves,
    h.entry, hlost, fun hspares ↦ hlost ?_⟩
  rw [← Finmap.lookup_isSome, hspares.peers, h.entry]
  rfl

end Sample

end MetalBond.Teardown
