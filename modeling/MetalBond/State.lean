import MetalBond.Async.Task
import MetalBond.RouteTable
import MetalBond.Wire

namespace MetalBond

open Async Collections HashMap

def peerTxBufferSize : ℕ := 256

abbrev PeerId := ℕ

abbrev TaskId := ℕ

/-- The fields of a peer object that never change; `id` is the object's identity. -/
structure Peer where
  id : PeerId
  config : Config
  remoteAddr : SocketAddr
  direction : ConnectionDirection

instance : Inhabited Peer := ⟨0, default, .v4 ⟨.replicate 4 0⟩ 0, .incoming⟩

structure PeerCell where
  isRemoteServer : Bool
  state : ConnectionState
  subscribedVnisRemote : Finset Vni
  tx : Mailbox GeneratedMessage peerTxBufferSize
  /-- Has `notify_one` left a permit? -/
  shutdownSignal : Bool

def PeerCell.new : PeerCell := ⟨false, .connecting, ∅, .new, false⟩

structure MetalBondState where
  config : Config
  routeTable : RouteTable
  myAnnouncements : RouteTable
  mySubscriptions : Finset Vni
  subscribers : HashMap Vni (Finset SocketAddr)
  peers : HashMap SocketAddr Peer
  isServer : Bool
  peerTasks : HashMap SocketAddr TaskId

def MetalBondState.new (config : Config) (isServer : Bool) : MetalBondState :=
  ⟨config, .new, .new, ∅, ∅, ∅, isServer, ∅⟩

inductive ClientCall
  | addRoute (vni : Vni) (dest : Destination) (nh : NextHop)
  | removeRoute (vni : Vni) (dest : Destination) (nh : NextHop)
  | clearRoutesForVni (vni : Vni)
  deriving DecidableEq

/-- An OS client: the calls it received, and whether it succeeds at the next one. -/
structure Client where
  calls : List ClientCall
  succeeds : List ClientCall → ClientCall → Bool

def Client.call (c : Client) (call : ClientCall) : Bool × Client :=
  (c.succeeds c.calls call, { c with calls := c.calls ++ [call] })

structure World where
  mb : MetalBondState
  cell : PeerId → PeerCell
  client : Client
  /-- The targets of the management tasks, by task. -/
  spawned : List SocketAddr
  aborted : Finset TaskId

inductive Lock
  | metalbondState
  | peerState (id : PeerId)
  | isRemoteServer (id : PeerId)
  | subscribedVnisRemote (id : PeerId)
  deriving DecidableEq

abbrev Code (α : Type) := Task Lock World InternalUpdate α

abbrev Node := Shared World InternalUpdate

namespace World

variable (w : World)

def setCell (id : PeerId) (c : PeerCell) : World := { w with cell := Function.update w.cell id c }

def modifyCell (id : PeerId) (f : PeerCell → PeerCell) : World := w.setCell id (f (w.cell id))

def modifyMb (f : MetalBondState → MetalBondState) : World := { w with mb := f w.mb }

@[simp] theorem setCell_mb (id : PeerId) (c : PeerCell) : (w.setCell id c).mb = w.mb := rfl

@[simp] theorem setCell_client (id : PeerId) (c : PeerCell) :
    (w.setCell id c).client = w.client := rfl

@[simp] theorem setCell_cell (id : PeerId) (c : PeerCell) : (w.setCell id c).cell id = c :=
  Function.update_self ..

theorem setCell_cell_of_ne {id id' : PeerId} (h : id' ≠ id) (c : PeerCell) :
    (w.setCell id c).cell id' = w.cell id' := Function.update_of_ne h ..

@[simp] theorem setCell_setCell (id : PeerId) (c c' : PeerCell) :
    (w.setCell id c).setCell id c' = w.setCell id c' := by
  simp [setCell]

@[simp] theorem setCell_self (id : PeerId) : w.setCell id (w.cell id) = w := by
  simp [setCell]

@[simp] theorem modifyCell_mb (id : PeerId) (f : PeerCell → PeerCell) :
    (w.modifyCell id f).mb = w.mb := rfl

@[simp] theorem modifyCell_cell (id : PeerId) (f : PeerCell → PeerCell) :
    (w.modifyCell id f).cell id = f (w.cell id) := setCell_cell ..

theorem modifyCell_cell_of_ne {id id' : PeerId} (h : id' ≠ id) (f : PeerCell → PeerCell) :
    (w.modifyCell id f).cell id' = w.cell id' := setCell_cell_of_ne w h _

@[simp] theorem modifyMb_mb (f : MetalBondState → MetalBondState) :
    (w.modifyMb f).mb = f w.mb := rfl

@[simp] theorem modifyMb_cell (f : MetalBondState → MetalBondState) :
    (w.modifyMb f).cell = w.cell := rfl

end World

namespace Sample

def addr (port : UInt16) : SocketAddr := .v4 ⟨.replicate 4 10⟩ port

def peer (id : PeerId) (direction : ConnectionDirection) : Peer :=
  ⟨id, default, addr (.ofNat id), direction⟩

def node (isServer : Bool) : Node where
  world := {
    mb := .new default isServer
    cell := fun _ ↦ .new
    client := ⟨[], fun _ _ ↦ true⟩
    spawned := []
    aborted := ∅ }
  chan := .new

def destination : Destination := ⟨.v4 ⟨⟨.replicate 4 10⟩, 24, by decide⟩⟩

def otherDestination : Destination := ⟨.v4 ⟨⟨.replicate 4 20⟩, 24, by decide⟩⟩

def nextHop : NextHop := ⟨.v6 ⟨.replicate 16 1⟩, 0, .standard, 0, 0⟩

def route : Route := (100, destination, nextHop)

def update (action : UpdateAction) : Pb.Update :=
  ⟨action.toI32, 100, some destination.toPb, some nextHop.toPb⟩

theorem sources_learned (k : PeerKey) (r : Route) :
    (RouteTable.new.addNextHop 100 destination nextHop k).2.sources r =
      if r = route then {k} else ∅ := by
  rw [RouteTable.sources_addNextHop, RouteTable.sources_new, RouteTable.sources_new]
  rfl

end Sample

end MetalBond
