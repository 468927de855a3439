import MetalBond.NodeCode
import MetalBond.PeerExec

namespace MetalBond

open Async Task Collections HashMap Peer

variable (ord : HashOrder) (held : List (Guard Lock)) (s : Node) (addr : SocketAddr)

def enqueued {α : Type} (s : Node) (o : Outcome Lock World InternalUpdate α) :
    List InternalUpdate :=
  o.shared.chan.history.drop s.chan.history.length

theorem history_dropRoutes (hopen : s.chan.closed = false) :
    (dropRoutes ord addr s).chan.history = s.chan.history ++
      (s.world.mb.routeTable.removeRoutesFromPeer ord addr).1.map (removal addr) := by
  simp only [dropRoutes, Channel.sendAll_of_open hopen, Channel.history_pushAll]

@[simp] theorem abortManager_routeTable (w : World) :
    (abortManager addr w).mb.routeTable = w.mb.routeTable := by
  unfold abortManager
  split <;> rfl

@[simp] theorem shutdownPeer_mb (w : World) : (shutdownPeer addr w).mb = w.mb := by
  unfold shutdownPeer
  split <;> rfl

theorem exec_removePeer {parse : String → Option SocketAddr} {addrStr : String}
    (h : parse addrStr = some addr) :
    exec [] (removePeer parse ord addrStr) s = .done (.ok ()) []
      (dropRoutes ord addr
        { s with world := shutdownPeer addr (abortManager addr s.world) }) := by
  simp only [removePeer, h, exec_bind, exec_acquire, clashes_nil, Bool.false_eq_true, if_false,
    Outcome.done_andThen, exec_modify, removeRoutesFromPeer, exec_update, exec_sendRemovals,
    exec_release, List.erase_cons_head, pure_eq, exec_ret]
  rfl

theorem exec_distribute (u : InternalUpdate) :
    exec [] (distribute ord u) s = exec [(.metalbondState, .read)] (do
      forwardAll u (peersToNotify ord u.vni s.world.mb)
      release .metalbondState .read
      return .ok ())
      { s with world := { s.world with client := (s.world.client.call (clientCall u)).2 } } := rfl

theorem peersToNotify_singleton {vni : Vni} {mb : MetalBondState} {addr : SocketAddr} {p : Peer}
    (hsubs : valueAt mb.subscribers vni = {addr}) (hp : mb.peers.lookup addr = some p) :
    peersToNotify ord vni mb = [p] := by
  rw [peersToNotify, hsubs, HashOrder.list_singleton]
  exact List.filterMap_cons_some hp

/-- An update about a VNI that nobody has subscribed to goes to the OS client alone. -/
theorem exec_distribute_unlisted {u : InternalUpdate} (h : valueAt s.world.mb.subscribers u.vni = ∅) :
    exec [] (distribute ord u) s = .done (.ok ()) []
      { s with world := { s.world with client := (s.world.client.call (clientCall u)).2 } } := by
  have hpeers : peersToNotify ord u.vni s.world.mb = [] := by
    rw [peersToNotify, h, HashOrder.list_empty]
    rfl
  rw [exec_distribute, hpeers]
  rfl

end MetalBond
