import MetalBond.Losses
import MetalBond.TableExec
import Mathlib.Data.Nat.Pairing

namespace MetalBond

open Async Task Collections HashMap
open Losses (dropReceiver)

/-- How far a task has come that ran through its script. -/
inductive Progress
  | returned
  | panicked
  /-- It waits for the next branch of a `select!`. -/
  | waiting
  deriving DecidableEq

namespace Peer

variable (ord : HashOrder) (self : Peer)

/-- The rounds that `select!` will go through, then it waits. -/
def handleRounds : List Round → Timers → Code Progress
  | [], _ => return .waiting
  | r :: rest, t => do
    match ← self.selectRound ord r t with
    | .again t => handleRounds rest t
    | .returned => return .returned
    | .panicked => return .panicked

/-- The receiver of the queue is dropped at the end, by a panic too. -/
def handlePeer (rounds : List Round) : Code Progress := do
  if ← self.startPeer ord then
    match ← self.handleRounds ord rounds .off with
    | .waiting => return .waiting
    | r =>
      modify (dropReceiver self)
      return r
  else
    modify (dropReceiver self)
    return .returned

/-- `Peer::new` -/
def create : Code Unit := modify fun w ↦ w.setCell self.id .new

end Peer

def insertPeer (peer : Peer) : Code Unit :=
  writing .metalbondState fun w ↦ ((), w.modifyMb fun mb ↦
    { mb with peers := mb.peers.insert peer.remoteAddr peer })

def erasePeer (addr : SocketAddr) : Code Unit :=
  writing .metalbondState fun w ↦ ((), w.modifyMb fun mb ↦
    { mb with peers := mb.peers.erase addr })

def serveConnection (ord : HashOrder) (peer : Peer) (rounds : List Round) : Code Progress := do
  peer.create
  insertPeer peer
  match ← peer.handlePeer ord rounds with
  | .returned =>
    erasePeer peer.remoteAddr
    return .returned
  | r => return r

/-- How the wait before the next attempt ends. -/
inductive Pause
  | shutdown
  | slept
  | waiting

inductive Attempt
  | shutdown
  | failed (pause : Pause)
  | connected (rounds : List Round) (pause : Pause)

section Manager

variable (ord : HashOrder) (task : TaskId) (config : Config) (addr : SocketAddr)

def stopManaging : Code Progress := do
  writing .metalbondState fun w ↦ ((), w.modifyMb fun mb ↦
    { mb with peerTasks := mb.peerTasks.erase addr })
  return .returned

/-- The random delay panics on an empty range. -/
def retry (pause : Pause) (next : Code Progress) : Code Progress :=
  if config.retryIntervalMax.asSecs < config.retryIntervalMin.asSecs then
    return .panicked
  else
    match pause with
    | .shutdown => stopManaging addr
    | .slept => next
    | .waiting => return .waiting

def currentState : Code (Option ConnectionState) := do
  match ← reading .metalbondState fun w ↦ w.mb.peers.lookup addr with
  | some peer =>
    let state ← peer.getState
    return some state
  | none => return none

def outgoingPeer (n : ℕ) : Peer := ⟨Nat.pair task n, config, addr, .outgoing⟩

/-- The attempts that the loop will go through, then it waits. -/
def manageAttempts : ℕ → List Attempt → Code Progress
  | _, [] => return .waiting
  | _, .shutdown :: _ => stopManaging addr
  | n, .failed pause :: rest => retry config addr pause (manageAttempts (n + 1) rest)
  | n, .connected rounds pause :: rest => do
    let peer := outgoingPeer task config addr n
    peer.create
    insertPeer peer
    match ← peer.handlePeer ord rounds with
    | .returned =>
      erasePeer addr
      if (← currentState addr) = some .closed then
        stopManaging addr
      else
        retry config addr pause (manageAttempts (n + 1) rest)
    | r => return r

end Manager

/-- The configuration and the shutdown notification are read under a guard each. -/
def manageSingleOutgoingConnection (ord : HashOrder) (task : TaskId) (addr : SocketAddr)
    (attempts : List Attempt) : Code Progress := do
  let config ← reading .metalbondState fun w ↦ w.mb.config
  reading .metalbondState fun _ ↦ ()
  manageAttempts ord task config addr 0 attempts

/-- The calls of the application, `shutdown` aside. -/
inductive Call : Code (Except Error Unit) → Prop
  | subscribe (ord : HashOrder) (vni : Vni) : Call (subscribe ord vni)
  | unsubscribe (ord : HashOrder) (vni : Vni) : Call (unsubscribe ord vni)
  | announceRoute (vni : Vni) (dest : Destination) (nh : NextHop) :
    Call (announceRoute vni dest nh)
  | withdrawRoute (vni : Vni) (dest : Destination) (nh : NextHop) :
    Call (withdrawRoute vni dest nh)
  | addPeer (parse : String → Option SocketAddr) (serverAddr : String) :
    Call (addPeer parse serverAddr)
  | removePeer (parse : String → Option SocketAddr) (ord : HashOrder) (addrStr : String) :
    Call (removePeer parse ord addrStr)

namespace Peer.Acts

variable {q : Peer} {R : Node → Node → Prop} (h : q.Acts R) (ord : HashOrder)
variable (htake : ∀ s : Node, R s { s with world := q.takeOutgoing s.world })
variable (hdrop : ∀ s : Node, R s { s with world := dropReceiver q s.world })

include h htake

theorem handleRounds (rounds : List Round) (t : Timers) :
    Confined R (q.handleRounds ord rounds t) := by
  induction rounds generalizing t with
  | nil => exact .ret _
  | cons r rest ih =>
    refine .bind (h.composes.selectRound ord (.modify htake) r t) fun next ↦ ?_
    cases next with
    | again t => exact ih t
    | returned => exact .ret _
    | panicked => exact .ret _

include hdrop

theorem handlePeer (rounds : List Round) : Confined R (q.handlePeer ord rounds) := by
  refine .bind (h.composes.startPeer ord) fun started ↦ ?_
  cases started with
  | true =>
    refine .bind (h.handleRounds ord htake rounds .off) fun progress ↦ ?_
    cases progress with
    | waiting => exact .ret _
    | returned => exact .bind (.modify hdrop) fun _ ↦ .ret _
    | panicked => exact .bind (.modify hdrop) fun _ ↦ .ret _
  | false => exact .bind (.modify hdrop) fun _ ↦ .ret _

end Peer.Acts

structure Spares (addr : SocketAddr) (s s' : Node) : Prop where
  peers : s'.world.mb.peers.lookup addr = s.world.mb.peers.lookup addr
  subscribers : ∀ vni, addr ∈ valueAt s'.world.mb.subscribers vni ↔
    addr ∈ valueAt s.world.mb.subscribers vni
  routes : ∀ r, some addr ∈ s'.world.mb.routeTable.sources r ↔
    some addr ∈ s.world.mb.routeTable.sources r

structure SameTasks (s s' : Node) : Prop where
  isServer : s'.world.mb.isServer = s.world.mb.isServer
  peerTasks : s'.world.mb.peerTasks = s.world.mb.peerTasks
  spawned : s'.world.spawned = s.world.spawned
  aborted : s'.world.aborted = s.world.aborted

section Spares

variable {addr : SocketAddr} {s s' s'' : Node}

instance : Std.Refl (Spares addr) := ⟨fun _ ↦ ⟨rfl, fun _ ↦ .rfl, fun _ ↦ .rfl⟩⟩

instance : Std.Refl SameTasks := ⟨fun _ ↦ ⟨rfl, rfl, rfl, rfl⟩⟩

theorem spares_of_mb (h : s'.world.mb = s.world.mb) : Spares addr s s' :=
  ⟨by rw [h], fun _ ↦ by rw [h], fun _ ↦ by rw [h]⟩

theorem valueAt_forgetSubscriber (addr : SocketAddr) (vnis : Finset Vni)
    (subscribers : HashMap Vni (Finset SocketAddr)) (vni : Vni) :
    valueAt (Peer.forgetSubscriber addr vnis subscribers) vni =
      if vni ∈ vnis then (valueAt subscribers vni).erase addr else valueAt subscribers vni := by
  simp only [valueAt, Peer.forgetSubscriber, lookup_filterMap]
  cases subscribers.lookup vni <;> simp

variable {q : Peer} (hq : q.remoteAddr ≠ addr)

include hq

theorem acts_spares : q.Acts (Spares addr) where
  refl := inferInstance
  sent _ _ := spares_of_mb rfl
  cell _ _ _ := spares_of_mb rfl
  send _ _ := spares_of_mb rfl
  update s action vni dest nh := by
    have hmb := (Peer.tableOnly_applyUpdate s action vni dest nh (some q.remoteAddr)).mb_eq
    refine ⟨by rw [hmb], fun _ ↦ by rw [hmb], fun r ↦ ?_⟩
    have hne : some addr ≠ some q.remoteAddr := fun h ↦ hq (Option.some.inj h).symm
    rw [sources_applyUpdate]
    split
    · next hr =>
      rw [hr]
      cases action with
      | add => exact Finset.mem_insert.trans (or_iff_right hne)
      | remove => exact Finset.mem_erase.trans (and_iff_right hne)
    · exact .rfl
  removeRoutes s ord := by
    refine ⟨rfl, fun _ ↦ .rfl, fun r ↦ ?_⟩
    have hne : some addr ≠ some q.remoteAddr := fun h ↦ hq (Option.some.inj h).symm
    change some addr ∈ (s.world.mb.routeTable.dropPeer q.remoteAddr).sources r ↔ _
    rw [RouteTable.sources_dropPeer]
    exact Finset.mem_erase.trans (and_iff_right hne)
  subscribe s vni := by
    refine ⟨rfl, fun v ↦ ?_, fun _ ↦ .rfl⟩
    rw [Peer.subscribers_addSubscriber]
    split
    · next hv =>
      rw [hv]
      exact Finset.mem_insert.trans (or_iff_right hq.symm)
    · exact .rfl
  unsubscribe s vni := by
    have hmb := Peer.mb_removeSubscriber q.remoteAddr vni s.world
    refine ⟨by rw [hmb], fun v ↦ ?_, fun _ ↦ by rw [hmb]⟩
    rw [Peer.subscribers_removeSubscriber]
    split
    · next hv =>
      rw [hv]
      exact Finset.mem_erase.trans (and_iff_right hq.symm)
    · exact .rfl
  forget s vnis := by
    refine ⟨rfl, fun v ↦ ?_, fun _ ↦ .rfl⟩
    change addr ∈ valueAt (Peer.forgetSubscriber q.remoteAddr vnis s.world.mb.subscribers) v ↔ _
    rw [valueAt_forgetSubscriber]
    split
    · exact Finset.mem_erase.trans (and_iff_right hq.symm)
    · exact .rfl

end Spares

structure Minds (addr : SocketAddr) (s s' : Node) : Prop where
  tasks : SameTasks s s'
  others : ∀ other, addr ≠ other → Spares other s s'

theorem TableOnly.sameTasks {s s' : Node} (h : TableOnly s s') : SameTasks s s' := by
  obtain ⟨t, h⟩ := h
  constructor <;> rw [h] <;> rfl

section Minds

variable {addr : SocketAddr} {s s' : Node}

instance : Std.Refl (Minds addr) := ⟨fun s ↦ ⟨Std.Refl.refl s, fun _ _ ↦ Std.Refl.refl s⟩⟩

theorem minds_modifyCell (s : Node) (id : PeerId) (f : PeerCell → PeerCell) :
    Minds addr s { s with world := s.world.modifyCell id f } :=
  ⟨⟨rfl, rfl, rfl, rfl⟩, fun _ _ ↦ spares_of_mb rfl⟩

theorem acts_minds (q : Peer) : q.Acts (Minds q.remoteAddr) where
  refl := inferInstance
  sent s msg := ⟨⟨rfl, rfl, rfl, rfl⟩, fun _ _ ↦ spares_of_mb rfl⟩
  cell s f _ := minds_modifyCell s q.id f
  send s _ := ⟨⟨rfl, rfl, rfl, rfl⟩, fun _ _ ↦ spares_of_mb rfl⟩
  update s action vni dest nh := by
    have htable := Peer.tableOnly_applyUpdate s action vni dest nh (some q.remoteAddr)
    exact ⟨htable.sameTasks, fun _ hq ↦ (acts_spares hq).update s action vni dest nh⟩
  removeRoutes s ord := ⟨⟨rfl, rfl, rfl, rfl⟩, fun _ hq ↦ (acts_spares hq).removeRoutes s ord⟩
  subscribe s vni := ⟨⟨rfl, rfl, rfl, rfl⟩, fun _ hq ↦ (acts_spares hq).subscribe s vni⟩
  unsubscribe s vni := by
    refine ⟨?_, fun _ hq ↦ (acts_spares hq).unsubscribe s vni⟩
    unfold Peer.removeSubscriber
    split <;> exact ⟨rfl, rfl, rfl, rfl⟩
  forget s vnis := ⟨⟨rfl, rfl, rfl, rfl⟩, fun _ hq ↦ (acts_spares hq).forget s vnis⟩

theorem minds_takeOutgoing (q : Peer) (s : Node) :
    Minds addr s { s with world := q.takeOutgoing s.world } := by
  obtain ⟨tx, htake⟩ := q.takeOutgoing_eq s.world
  rw [htake]
  exact minds_modifyCell s q.id _

theorem minds_handlePeer (ord : HashOrder) (q : Peer) (rounds : List Round) :
    Confined (Minds q.remoteAddr) (q.handlePeer ord rounds) :=
  (acts_minds q).handlePeer ord (minds_takeOutgoing q) (fun s ↦ minds_modifyCell s q.id _) rounds

theorem minds_create (q : Peer) : Confined (Minds addr) q.create :=
  .modify fun s ↦ minds_modifyCell s q.id fun _ ↦ .new

theorem minds_peers {peers : HashMap SocketAddr Peer}
    (h : ∀ other, addr ≠ other → peers.lookup other = s.world.mb.peers.lookup other) :
    Minds addr s { s with world := s.world.modifyMb fun mb ↦ { mb with peers := peers } } :=
  ⟨⟨rfl, rfl, rfl, rfl⟩, fun other hne ↦ ⟨h other hne, fun _ ↦ .rfl, fun _ ↦ .rfl⟩⟩

theorem minds_insertPeer (q : Peer) : Confined (Minds q.remoteAddr) (insertPeer q) :=
  .writing fun _ ↦ minds_peers fun _ hne ↦ Finmap.lookup_insert_of_ne _ hne.symm

theorem minds_erasePeer (addr : SocketAddr) : Confined (Minds addr) (erasePeer addr) :=
  .writing fun _ ↦ minds_peers fun _ hne ↦ Finmap.lookup_erase_ne hne.symm

theorem minds_serveConnection (ord : HashOrder) (q : Peer) (rounds : List Round) :
    Confined (Minds q.remoteAddr) (serveConnection ord q rounds) := by
  refine .bind (minds_create q) fun _ ↦ .bind (minds_insertPeer q) fun _ ↦ ?_
  refine .bind (minds_handlePeer ord q rounds) fun progress ↦ ?_
  cases progress with
  | returned => exact .bind (minds_erasePeer q.remoteAddr) fun _ ↦ .ret _
  | panicked => exact .ret _
  | waiting => exact .ret _

end Minds

end MetalBond
