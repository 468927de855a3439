import MetalBond.Async.Protocol
import MetalBond.ConnectionTasks

namespace MetalBond.PeerRemoval

open Async Task Collections HashMap
open Losses (dropReceiver)

inductive Actor (κ : Type)
  | caller (k : κ)
  | distributor
  | shutdown
  | manager (task : TaskId)
  deriving DecidableEq

def drainPeerTasks (w : World) : HashMap SocketAddr TaskId × World :=
  (w.mb.peerTasks, w.modifyMb fun mb ↦ { mb with peerTasks := ∅ })

def abortAll (tasks : HashMap SocketAddr TaskId) (w : World) : World :=
  { w with aborted := w.aborted ∪ tasks.keys.biUnion fun addr ↦ (tasks.lookup addr).toFinset }

def signalAll : List Peer → Code Unit
  | [] => return ()
  | peer :: rest => do
    peer.triggerShutdown
    signalAll rest

/-- What `shutdown` does about the peers. -/
def shutdownPeers (ord : HashOrder) : Code Unit := do
  let peerHandles ← writing .metalbondState drainPeerTasks
  modify (abortAll peerHandles)
  let activePeers ← reading .metalbondState fun w ↦ peerList ord w.mb.peers
  signalAll activePeers

/-- What may start when nothing else of the actor runs; a management task is only spawned. -/
inductive Work {κ : Type} : Actor κ → Option InternalUpdate → Code (Except Error Unit) → Prop
  | distribute (ord : HashOrder) (u : InternalUpdate) :
    Work .distributor (some u) (distribute ord u)
  | call (k : κ) {t : Code (Except Error Unit)} (h : Call t) : Work (.caller k) none t
  | shutdown (ord : HashOrder) : Work .shutdown none (do shutdownPeers ord; return .ok ())

variable {κ : Type}

/-- An aborted task takes no further step. -/
def halted (c : Tasks (Actor κ)) : Tasks (Actor κ) where
  procs
    | .manager id =>
      if id ∈ c.shared.world.aborted then ⟨c.held (.manager id), .ret (.ok ())⟩
      else c.procs (.manager id)
    | i => c.procs i
  shared := c.shared

def Borrowed (c : Tasks (Actor κ)) : Prop := c.Idle .shutdown ∨ ∀ k, c.Idle (.caller k)

def dropReceivers (task : TaskId) (w : World) : World :=
  { w with cell := fun id ↦
      if id.unpair.1 = task then { w.cell id with tx := (w.cell id).tx.close } else w.cell id }

def managerCode (ord : HashOrder) (task : TaskId) (addr : SocketAddr) (attempts : List Attempt) :
    Code (Except Error Unit) := do
  let _ ← manageSingleOutgoingConnection ord task addr attempts
  return .ok ()

section Step

variable [DecidableEq κ]

inductive Step (c : Tasks (Actor κ)) : Tasks (Actor κ) → Prop
  | work (d : Tasks (Actor κ)) (h : Pool.Step Work c d)
    (hspawned : d.shared.world.spawned = c.shared.world.spawned) (hborrowed : Borrowed d) :
    Step c (halted d)
  /-- The step that spawns a management task. -/
  | spawn (d : Tasks (Actor κ)) (addr : SocketAddr) (ord : HashOrder) (attempts : List Attempt)
    (h : Pool.Step Work c d)
    (hspawned : d.shared.world.spawned = c.shared.world.spawned ++ [addr])
    (hborrowed : Borrowed d) :
    Step c (halted (d.set (.manager c.shared.world.spawned.length)
      ⟨[], managerCode ord c.shared.world.spawned.length addr attempts⟩ d.shared))
  /-- An aborted task is dropped: its guards are released. -/
  | drop (id : TaskId) (h : id ∈ c.shared.world.aborted) :
    Step c (c.set (.manager id) ⟨[], .ret (.ok ())⟩
      { c.shared with world := dropReceivers id c.shared.world })

end Step

structure Begins (c : Tasks (Actor κ)) : Prop where
  idle : ∀ i, c.Idle i
  unguarded : ∀ i, c.held i = []
  new : ∃ config, c.shared.world.mb = .new config false

def removing (ord : HashOrder) (addr : SocketAddr) : Code (Except Error Unit) := do
  modify (abortManager addr)
  modify (shutdownPeer addr)
  let removed ← Peer.removeRoutesFromPeer ord addr
  Peer.sendRemovals addr removed
  release .metalbondState .write
  return .ok ()

theorem removePeer_eq {parse : String → Option SocketAddr} {addrStr : String} {addr : SocketAddr}
    (h : parse addrStr = some addr) (ord : HashOrder) :
    removePeer parse ord addrStr = (do acquire .metalbondState .write; removing ord addr) := by
  unfold removePeer
  rw [h]
  rfl

structure Removes [DecidableEq κ] (k : κ) (addr : SocketAddr) (c c' : Tasks (Actor κ)) : Prop where
  step : Step c c'
  called : ∃ ord, c.code (.caller k) = removing ord addr
  moved : c'.code (.caller k) ≠ c.code (.caller k)

def Adds (addr : SocketAddr) (s s' : Node) : Prop := s'.world.spawned = s.world.spawned ++ [addr]

/-- Nothing is left of the address, and it can be added anew. -/
structure Complete (addr : SocketAddr) (s : Node) : Prop where
  peers : addr ∉ s.world.mb.peers
  peerTasks : addr ∉ s.world.mb.peerTasks
  subscribers : ∀ vni, addr ∉ valueAt s.world.mb.subscribers vni
  accepted : ∀ parse serverAddr, parse serverAddr = some addr →
    ∃ s', exec [] (addPeer parse serverAddr) s = .done (.ok ()) [] s'

theorem exec_addPeer_free {parse : String → Option SocketAddr} {serverAddr : String}
    {addr : SocketAddr} {s : Node} (hparse : parse serverAddr = some addr)
    (hclient : s.world.mb.isServer = false) (hpeers : addr ∉ s.world.mb.peers)
    (htasks : addr ∉ s.world.mb.peerTasks) :
    exec [] (addPeer parse serverAddr) s =
      .done (.ok ()) [] { s with world := spawnManager addr s.world } := by
  have hfree : decide (addr ∈ s.world.mb.peers ∨ addr ∈ s.world.mb.peerTasks) = false := by
    simp [hpeers, htasks]
  simp only [addPeer, hparse, exec_bind, exec_reading [] s rfl, Outcome.done_andThen, hclient,
    Bool.false_eq_true, if_false, exec_acquire, clashes_nil, exec_gets, hfree, exec_modify,
    exec_release, List.erase_cons_head, pure_eq, exec_ret]

/-- What a task has to do with the management tasks at this point of its code. -/
inductive Stage
  | calling
  | distributing
  | closing
  /-- `add_peer` has its guard. -/
  | booking
  /-- It has seen that the address is free. -/
  | free (addr : SocketAddr)
  /-- `shutdown` has the handles, which are in the map no more. -/
  | draining (tasks : HashMap SocketAddr TaskId)
  | managing (addr : SocketAddr)
  | done

inductive Stage.Home : Stage → Prop
  | calling : Home .calling
  | distributing : Home .distributing
  | closing : Home .closing

/-- The management tasks, and the entries and subscriptions of the peers. -/
def records (s : Node) : Bool × HashMap SocketAddr TaskId × List SocketAddr × Finset TaskId ×
    HashMap SocketAddr Peer × HashMap Vni (Finset SocketAddr) :=
  (s.world.mb.isServer, s.world.mb.peerTasks, s.world.spawned, s.world.aborted, s.world.mb.peers,
    s.world.mb.subscribers)

def SameRecords (s s' : Node) : Prop := records s' = records s

instance : Std.Refl SameRecords := ⟨fun _ ↦ rfl⟩

namespace SameRecords

variable {s s' : Node}

theorem tasks (h : SameRecords s s') : SameTasks s s' := by
  simp only [SameRecords, records, Prod.mk.injEq] at h
  exact ⟨h.1, h.2.1, h.2.2.1, h.2.2.2.1⟩

theorem peers (h : SameRecords s s') : s'.world.mb.peers = s.world.mb.peers := by
  simp only [SameRecords, records, Prod.mk.injEq] at h
  exact h.2.2.2.2.1

theorem subscribers (h : SameRecords s s') : s'.world.mb.subscribers = s.world.mb.subscribers := by
  simp only [SameRecords, records, Prod.mk.injEq] at h
  exact h.2.2.2.2.2

end SameRecords

inductive Tends : Stage → Option (LockEvent Lock) → Node → Stage → Node → Prop
  | call {σ : Stage} (hσ : σ.Home) {e : Option (LockEvent Lock)} {s s' : Node} (h : SameRecords s s') :
    Tends σ e s σ s'
  | abort {s : Node} (addr : SocketAddr) :
    Tends .calling none s .calling { s with world := abortManager addr s.world }
  | book {s : Node} : Tends .calling (some (.acquire .metalbondState .write)) s .booking s
  | look {s : Node} : Tends .booking none s .booking s
  | find {s : Node} {addr : SocketAddr} (h : addr ∉ s.world.mb.peerTasks) :
    Tends .booking none s (.free addr) s
  | spawn {s : Node} {addr : SocketAddr} :
    Tends (.free addr) none s .booking { s with world := spawnManager addr s.world }
  | leave {s : Node} : Tends .booking (some (.release .metalbondState .write)) s .calling s
  | drain {s : Node} : Tends .closing none s (.draining s.world.mb.peerTasks)
      { s with world := (drainPeerTasks s.world).2 }
  | unlock {s : Node} {tasks : HashMap SocketAddr TaskId} :
    Tends (.draining tasks) (some (.release .metalbondState .write)) s (.draining tasks) s
  | abortAll {s : Node} {tasks : HashMap SocketAddr TaskId} :
    Tends (.draining tasks) none s .closing { s with world := abortAll tasks s.world }
  | manage {e : Option (LockEvent Lock)} {s s' : Node} {addr : SocketAddr} (h : Minds addr s s') :
    Tends (.managing addr) e s (.managing addr) s'
  | stop {s : Node} {addr : SocketAddr} : Tends (.managing addr) none s .done
      { s with world := s.world.modifyMb fun mb ↦ { mb with peerTasks := mb.peerTasks.erase addr } }
  | done {e : Option (LockEvent Lock)} {s : Node} : Tends .done e s .done s

def tending : Protocol Stage Lock World InternalUpdate where
  Knows _ _ _ := True
  Step := Tends
  Idle
    | .booking | .free _ | .draining _ => False
    | _ => True
  Start σ _ σ' := σ.Home ∧ σ' = σ

abbrev Tended {α : Type} (t : Code α) (σ σ' : Stage) : Prop :=
  Task.Follows tending (fun τ _ ↦ τ = σ') t σ

theorem quiet_home {σ : Stage} (hσ : σ.Home) : Quiet tending σ SameRecords fun _ ↦ True :=
  ⟨fun _ h ↦ .call hσ h, fun _ _ ↦ .call hσ (Std.Refl.refl _),
    fun _ _ ↦ .call hσ (Std.Refl.refl _)⟩

theorem quiet_managing (addr : SocketAddr) :
    Quiet tending (.managing addr) (Minds addr) fun _ ↦ True :=
  ⟨fun _ h ↦ .manage h, fun _ _ ↦ .manage (Std.Refl.refl _), fun _ _ ↦ .manage (Std.Refl.refl _)⟩

theorem tended_home {α : Type} {t : Code α} {σ : Stage} (hσ : σ.Home) (h : Confined SameRecords t) :
    Tended t σ σ := (quiet_home hσ).of_confined h

theorem tended_managing {α : Type} {t : Code α} {addr : SocketAddr} (h : Confined (Minds addr) t) :
    Tended t (.managing addr) (.managing addr) := (quiet_managing addr).of_confined h

theorem tended_addPeer (parse : String → Option SocketAddr) (serverAddr : String) :
    Tended (addPeer parse serverAddr) .calling .calling := by
  unfold addPeer
  split
  · exact .ret rfl
  · next addr _ =>
    refine (tended_home .calling (.reading ..)).andThen fun isServer ↦ ?_
    split
    · exact .ret rfl
    · have hbook : Tended (acquire .metalbondState .write) .calling .booking :=
        .acquire fun s _ ↦ ⟨.booking, .book, rfl⟩
      have hleave : Tended (release .metalbondState .write) .booking .calling :=
        .release fun s _ ↦ ⟨.calling, .leave, rfl⟩
      refine hbook.andThen fun _ ↦ ?_
      have hlook : Task.Follows tending
          (fun σ known ↦ σ = if known then .booking else .free addr)
          (gets fun w ↦ decide (addr ∈ w.mb.peers ∨ addr ∈ w.mb.peerTasks)) .booking := by
        refine .gets fun s _ ↦ ?_
        by_cases hknown : addr ∈ s.world.mb.peers ∨ addr ∈ s.world.mb.peerTasks
        · exact ⟨.booking, .look, by simp [hknown]⟩
        · exact ⟨.free addr, .find fun h ↦ hknown (.inr h), by simp [hknown]⟩
      refine hlook.bind fun σ known hσ ↦ ?_
      subst hσ
      cases known with
      | true => exact hleave.andThen fun _ ↦ .ret rfl
      | false =>
        have hspawn : Tended (modify (spawnManager addr)) (.free addr) .booking :=
          .modify fun s _ ↦ ⟨.booking, .spawn, rfl⟩
        exact hspawn.andThen fun _ ↦ hleave.andThen fun _ ↦ .ret rfl

theorem sameRecords_sendRemovals (addr : SocketAddr) (routes : List Route) :
    Confined SameRecords (Peer.sendRemovals addr routes) := by
  induction routes with
  | nil => exact .ret ()
  | cons r rest ih =>
    exact .bind (.sendOn fun _ ↦ rfl) fun _ ↦ ih

theorem tended_removing (ord : HashOrder) (addr : SocketAddr) :
    Tended (removing ord addr) .calling .calling := by
  have habort : Tended (modify (abortManager addr)) .calling .calling :=
    .modify fun s _ ↦ ⟨.calling, .abort addr, rfl⟩
  refine habort.andThen fun _ ↦ tended_home .calling ?_
  have hshutdown : ∀ s : Node, SameRecords s { s with world := shutdownPeer addr s.world } := by
    intro s
    unfold shutdownPeer
    split <;> exact rfl
  refine .bind (.modify hshutdown) fun _ ↦ .bind (.update fun s ↦ ?_) fun removed ↦ ?_
  · exact rfl
  · exact .bind (sameRecords_sendRemovals addr removed) fun _ ↦ .bind (.release ..) fun _ ↦ .ret _

theorem tended_removePeer (parse : String → Option SocketAddr) (ord : HashOrder)
    (addrStr : String) : Tended (removePeer parse ord addrStr) .calling .calling := by
  cases h : parse addrStr with
  | none =>
    unfold removePeer
    rw [h]
    exact .ret rfl
  | some addr =>
    rw [removePeer_eq h]
    exact (tended_home .calling (.acquire ..)).andThen fun _ ↦ tended_removing ord addr

theorem tended_shutdownPeers (ord : HashOrder) :
    Tended (shutdownPeers ord) .closing .closing := by
  have hsignal : ∀ peers, Confined SameRecords (signalAll peers) := by
    intro peers
    induction peers with
    | nil => exact .ret ()
    | cons q rest ih => exact .bind (.modify fun _ ↦ rfl) fun _ ↦ ih
  have hdrain : Task.Follows tending (fun σ tasks ↦ σ = .draining tasks)
      (writing .metalbondState drainPeerTasks) .closing := by
    refine (tended_home .closing (.acquire ..)).andThen fun _ ↦ ?_
    have htake : Task.Follows tending (fun σ tasks ↦ σ = .draining tasks)
        (update drainPeerTasks) .closing := .update fun s _ ↦ ⟨_, .drain, rfl⟩
    refine htake.bind fun σ tasks hσ ↦ ?_
    subst hσ
    have hunlock : Tended (release .metalbondState .write) (.draining tasks) (.draining tasks) :=
      .release fun s _ ↦ ⟨_, .unlock, rfl⟩
    exact hunlock.andThen fun _ ↦ .ret rfl
  refine hdrain.bind fun σ tasks hσ ↦ ?_
  subst hσ
  have habort : Tended (modify (abortAll tasks)) (.draining tasks) .closing :=
    .modify fun s _ ↦ ⟨_, .abortAll, rfl⟩
  exact habort.andThen fun _ ↦ (tended_home .closing (.reading ..)).andThen fun peers ↦
    tended_home .closing (hsignal peers)

/-- From the stage on, the code keeps to the protocol, and it may end where it ends. -/
abbrev Settles {α : Type} (t : Code α) (σ : Stage) : Prop :=
  Task.Follows tending (fun τ _ ↦ tending.Idle τ) t σ

def Actor.home : Actor κ → Stage
  | .caller _ => .calling
  | .distributor => .distributing
  | .shutdown => .closing
  | .manager _ => .done

theorem Work.home {i : Actor κ} {o : Option InternalUpdate} {t : Code (Except Error Unit)}
    (h : Work i o t) : i.home.Home := by
  cases h <;> constructor

theorem sameRecords_announcements (s : Node) (g : MetalBondState → RouteTable) :
    SameRecords s { s with
      world := s.world.modifyMb fun mb ↦ { mb with myAnnouncements := g mb } } := rfl

theorem tended_call {t : Code (Except Error Unit)} (h : Call t) : Tended t .calling .calling := by
  cases h with
  | subscribe ord vni =>
    exact tended_home .calling (confined_subscribe ord (fun _ _ ↦ rfl)
      (fun _ _ ↦ rfl) (fun _ _ _ ↦ rfl) vni)
  | unsubscribe ord vni =>
    exact tended_home .calling (confined_unsubscribe ord (fun _ _ ↦ rfl)
      (fun _ _ ↦ rfl) (fun _ _ _ ↦ rfl) vni)
  | announceRoute vni dest nh =>
    have hadd : ∀ s : Node, SameRecords s { s with world := addAnnouncement vni dest nh s.world } :=
      fun s ↦ sameRecords_announcements s fun mb ↦ (mb.myAnnouncements.addNextHop vni dest nh none).2
    exact tended_home .calling (confined_announceRoute hadd fun _ ↦ rfl)
  | withdrawRoute vni dest nh =>
    refine tended_home .calling (confined_withdrawRoute (fun s ↦ ?_) fun _ ↦ rfl)
    unfold removeAnnouncement
    split <;> exact rfl
  | addPeer parse serverAddr => exact tended_addPeer parse serverAddr
  | removePeer parse ord addrStr => exact tended_removePeer parse ord addrStr

theorem Work.settles {i : Actor κ} {o : Option InternalUpdate} {t : Code (Except Error Unit)}
    (h : Work i o t) : Settles t i.home := by
  cases h with
  | distribute ord u =>
    have hdistribute : Confined SameRecords (MetalBond.distribute ord u) :=
      confined_distribute (R := SameRecords) (fun _ ↦ rfl) (fun _ _ _ ↦ rfl) ord
    exact (tended_home .distributing hdistribute).mono fun _ _ hσ ↦ hσ ▸ trivial
  | call k h => exact (tended_call h).mono fun _ _ hσ ↦ hσ ▸ trivial
  | shutdown ord => exact (tended_shutdownPeers ord).andThen fun _ ↦ .ret trivial

section Manager

variable (ord : HashOrder) (task : TaskId) (config : Config) (addr : SocketAddr)

theorem settles_stopManaging : Settles (stopManaging addr) (.managing addr) := by
  have hguard : Tended (acquire .metalbondState .write) (.managing addr) (.managing addr) :=
    tended_managing (.acquire ..)
  have hstop : Tended (update fun w : World ↦ ((), w.modifyMb fun mb ↦
      { mb with peerTasks := mb.peerTasks.erase addr })) (.managing addr) .done :=
    .update fun _ _ ↦ ⟨_, .stop, rfl⟩
  have hrelease : Tended (release .metalbondState .write) .done .done :=
    .release fun _ _ ↦ ⟨_, .done, rfl⟩
  have hwrite : Tended (writing .metalbondState fun w : World ↦ ((), w.modifyMb fun mb ↦
      { mb with peerTasks := mb.peerTasks.erase addr })) (.managing addr) .done :=
    hguard.andThen fun _ ↦ hstop.andThen fun _ ↦ hrelease.andThen fun _ ↦ .ret rfl
  exact hwrite.andThen fun _ ↦ .ret trivial

theorem settles_retry (pause : Pause) {next : Code Progress}
    (h : Settles next (.managing addr)) : Settles (retry config addr pause next) (.managing addr) := by
  unfold retry
  split
  · exact .ret trivial
  · cases pause with
    | shutdown => exact settles_stopManaging addr
    | slept => exact h
    | waiting => exact .ret trivial

theorem minds_currentState : Confined (Minds addr) (currentState addr) := by
  refine .bind (.reading ..) fun found ↦ ?_
  cases found with
  | some peer => exact .bind (.reading ..) fun state ↦ .ret _
  | none => exact .ret _

theorem settles_manageAttempts (n : ℕ) (attempts : List Attempt) :
    Settles (manageAttempts ord task config addr n attempts) (.managing addr) := by
  induction attempts generalizing n with
  | nil => exact .ret trivial
  | cons attempt rest ih =>
    cases attempt with
    | shutdown => exact settles_stopManaging addr
    | failed pause => exact settles_retry config addr pause (ih (n + 1))
    | connected rounds pause =>
      let peer := outgoingPeer task config addr n
      refine (tended_managing (minds_create peer)).andThen fun _ ↦ ?_
      refine (tended_managing (minds_insertPeer peer)).andThen fun _ ↦ ?_
      refine (tended_managing (minds_handlePeer ord peer rounds)).andThen fun progress ↦ ?_
      cases progress with
      | returned =>
        refine (tended_managing (minds_erasePeer addr)).andThen fun _ ↦ ?_
        refine (tended_managing (minds_currentState addr)).andThen fun state ↦ ?_
        split
        · exact settles_stopManaging addr
        · exact settles_retry config addr pause (ih (n + 1))
      | panicked => exact .ret trivial
      | waiting => exact .ret trivial

theorem settles_managerCode (attempts : List Attempt) :
    Settles (managerCode ord task addr attempts) (.managing addr) := by
  have hmanage : Settles (manageSingleOutgoingConnection ord task addr attempts)
      (.managing addr) :=
    (tended_managing (.reading ..)).andThen fun config ↦
      (tended_managing (.reading ..)).andThen fun _ ↦ settles_manageAttempts ord task config addr 0 _
  exact hmanage.bind fun _ _ hσ ↦ .ret hσ

end Manager

end MetalBond.PeerRemoval
