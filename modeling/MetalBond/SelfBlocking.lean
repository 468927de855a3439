import MetalBond.NodeCode
import MetalBond.PeerFrame

namespace MetalBond.SelfBlocking

open Async Task Collections HashMap Peer

variable (ord : HashOrder) (self : Peer) {held : List (Guard Lock)}

theorem ends_getState : Ends [] [] self.getState := .reading rfl _

theorem ends_sendRemovals (source : SocketAddr) (routes : List Route) :
    Ends held held (sendRemovals source routes) := fun s ↦
  ⟨(), _, exec_sendRemovals held s source routes⟩

theorem ends_addPeer (parse : String → Option SocketAddr) (serverAddr : String) :
    Ends [] [] (addPeer parse serverAddr) := by
  unfold addPeer
  split
  · exact .ret _
  · refine .bind (.reading rfl _) fun isServer ↦ ?_
    split
    · exact .ret _
    · refine .bind (.acquire rfl) fun _ ↦ .bind (.gets _) fun known ↦ ?_
      split
      · exact .bind (.release _ _) fun _ ↦ .ret _
      · exact .bind (.modify _) fun _ ↦ .bind (.release _ _) fun _ ↦ .ret _

theorem ends_removePeer (parse : String → Option SocketAddr) (addrStr : String) :
    Ends [] [] (removePeer parse ord addrStr) := by
  unfold removePeer
  split
  · exact .ret _
  · refine .bind (.acquire rfl) fun _ ↦ .bind (.modify _) fun _ ↦ .bind (.modify _) fun _ ↦ ?_
    refine .bind (.update _) fun removed ↦ .bind (ends_sendRemovals _ removed) fun _ ↦ ?_
    exact .bind (.release _ _) fun _ ↦ .ret _

theorem ends_notifyEstablished {send : Peer → Code (Except Error Unit)}
    (hsend : ∀ peer, Ends [] [] (send peer)) (peers : List Peer) :
    Ends [] [] (notifyEstablished send peers) := by
  induction peers with
  | nil => exact .ret ()
  | cons peer rest ih =>
    refine .bind (ends_getState peer) fun state ↦ ?_
    split
    · exact .bind (hsend peer) fun _ ↦ ih
    · exact ih

theorem ends_announceSubscription {send : Peer → Code (Except Error Unit)}
    (hsend : ∀ peer, Ends [] [] (send peer)) (vni : Vni) (peers : List Peer) :
    Ends [] [] (announceSubscription vni send peers) := by
  refine .bind (ends_notifyEstablished hsend peers) fun _ ↦ .bind (.acquire rfl) fun _ ↦ ?_
  exact .bind (.update _) fun ok ↦ .bind (.release _ _) fun _ ↦ .ret _

theorem ends_subscribe (vni : Vni) : Ends [] [] (subscribe ord vni) := by
  refine .bind (.acquire rfl) fun _ ↦ .bind (.gets _) fun isServer ↦ ?_
  split
  · exact .bind (.release _ _) fun _ ↦ .ret _
  · refine .bind (.update _) fun inserted ↦ ?_
    split
    · refine .bind (.gets _) fun peers ↦ .bind (.release _ _) fun _ ↦ ?_
      exact ends_announceSubscription (fun _ ↦ .update _) vni peers
    · exact .bind (.release _ _) fun _ ↦ .ret _

theorem ends_unsubscribe (vni : Vni) : Ends [] [] (unsubscribe ord vni) := by
  refine .bind (.acquire rfl) fun _ ↦ .bind (.gets _) fun isServer ↦ ?_
  split
  · exact .bind (.release _ _) fun _ ↦ .ret _
  · refine .bind (.update _) fun removed ↦ ?_
    split
    · refine .bind (.gets _) fun peers ↦ .bind (.release _ _) fun _ ↦ ?_
      exact ends_announceSubscription (fun _ ↦ .update _) vni peers
    · exact .bind (.release _ _) fun _ ↦ .ret _

theorem ends_announceRoute (vni : Vni) (dest : Destination) (nh : NextHop) :
    Ends [] [] (announceRoute vni dest nh) := by
  refine .bind (.acquire rfl) fun _ ↦ .bind (.modify _) fun _ ↦ .bind (.sendOn _) fun sent ↦ ?_
  exact .bind (.release _ _) fun _ ↦ .ret _

theorem ends_withdrawRoute (vni : Vni) (dest : Destination) (nh : NextHop) :
    Ends [] [] (withdrawRoute vni dest nh) := by
  refine .bind (.acquire rfl) fun _ ↦ .bind (.update _) fun remaining ↦ ?_
  split
  · exact .bind (.sendOn _) fun sent ↦ .bind (.release _ _) fun _ ↦ .ret _
  · exact .bind (.release _ _) fun _ ↦ .ret _
  · exact .bind (.release _ _) fun _ ↦ .ret _

inductive Operation
  | setState (self : Peer) (newState : ConnectionState)
  | cleanupPeerState (self : Peer)
  | processHello (self : Peer) (hello : Pb.Hello)
  | processKeepalive (self : Peer)
  | processSubscribe (self : Peer) (sub : Pb.Subscription)
  | processUnsubscribe (self : Peer) (unsub : Pb.Subscription)
  | processUpdate (self : Peer) (msg : Pb.Update)
  | addPeer (parse : String → Option SocketAddr) (serverAddr : String)
  | removePeer (parse : String → Option SocketAddr) (addrStr : String)
  | subscribe (vni : Vni)
  | unsubscribe (vni : Vni)
  | announceRoute (vni : Vni) (dest : Destination) (nh : NextHop)
  | withdrawRoute (vni : Vni) (dest : Destination) (nh : NextHop)

def Operation.lockEvents (s : Node) : Operation → List (LockEvent Lock)
  | setState self newState => Task.lockEvents (self.setState ord newState) s
  | cleanupPeerState self => Task.lockEvents (self.cleanupPeerState ord) s
  | processHello self hello => Task.lockEvents (self.processHello ord hello) s
  | processKeepalive self => Task.lockEvents (self.processKeepalive ord) s
  | processSubscribe self sub => Task.lockEvents (self.processSubscribe ord sub) s
  | processUnsubscribe self unsub => Task.lockEvents (self.processUnsubscribe ord unsub) s
  | processUpdate self msg => Task.lockEvents (self.processUpdate msg) s
  | addPeer parse serverAddr => Task.lockEvents (MetalBond.addPeer parse serverAddr) s
  | removePeer parse addrStr => Task.lockEvents (MetalBond.removePeer parse ord addrStr) s
  | subscribe vni => Task.lockEvents (MetalBond.subscribe ord vni) s
  | unsubscribe vni => Task.lockEvents (MetalBond.unsubscribe ord vni) s
  | announceRoute vni dest nh => Task.lockEvents (MetalBond.announceRoute vni dest nh) s
  | withdrawRoute vni dest nh => Task.lockEvents (MetalBond.withdrawRoute vni dest nh) s

/-- The operation does not clean up after a remote side with subscriptions. -/
def Operation.NothingToForget (s : Node) : Operation → Prop
  | cleanupPeerState self => (s.world.cell self.id).subscribedVnisRemote = ∅
  | setState self newState => (s.world.cell self.id).state = .established →
      newState ≠ .established → (s.world.cell self.id).subscribedVnisRemote = ∅
  | _ => True

theorem conflictFree_cleanupPeerState (s : Node) :
    ConflictFree [] (Task.lockEvents (self.cleanupPeerState ord) s) ↔
      (self.cellOf s).subscribedVnisRemote = ∅ := by
  rw [conflictFree_iff, exec_cleanupPeerState]
  split <;> simp_all

theorem conflictFree_setState (newState : ConnectionState) (s : Node) :
    ConflictFree [] (Task.lockEvents (self.setState ord newState) s) ↔
      ((self.cellOf s).state = .established → newState ≠ .established →
        (self.cellOf s).subscribedVnisRemote = ∅) := by
  rw [conflictFree_iff]
  by_cases hsame : (self.cellOf s).state = newState
  · subst hsame
    rw [exec_setState_self]
    exact ⟨fun _ ho hn ↦ absurd ho hn, fun _ ↦ ⟨_, _, _, rfl⟩⟩
  by_cases hold : (self.cellOf s).state = .established
  · have hnew : newState ≠ .established := fun h ↦ hsame (hold.trans h.symm)
    rw [exec_setState_leave ord self s hnew hold, ← conflictFree_iff,
      conflictFree_cleanupPeerState, cellOf_withCell]
    simp [hold, hnew]
  · rw [exec_setState_enter ord self s hsame hold]
    exact ⟨fun _ ho ↦ absurd ho hold, fun _ ↦ ⟨_, _, _, rfl⟩⟩

/-- An operation conflicts with its own guards exactly when it cleans up after a remote
side that has subscriptions. -/
theorem conflictFree_iff_nothingToForget (op : Operation) (s : Node) :
    ConflictFree [] (op.lockEvents ord s) ↔ op.NothingToForget s := by
  cases op with
  | setState self newState => exact conflictFree_setState ord self newState s
  | cleanupPeerState self => exact conflictFree_cleanupPeerState ord self s
  | processHello self hello =>
    exact iff_of_true ((conflictFree_iff ..).mpr ⟨_, _, _, exec_processHello ord self s hello⟩)
      trivial
  | processKeepalive self =>
    exact iff_of_true ((conflictFree_iff ..).mpr ⟨_, _, _, exec_processKeepalive ord self s⟩)
      trivial
  | processSubscribe self sub =>
    refine iff_of_true ((conflictFree_iff ..).mpr ?_) trivial
    rw [exec_processSubscribe]
    split <;> exact ⟨_, _, _, rfl⟩
  | processUnsubscribe self unsub =>
    exact iff_of_true ((ends_processUnsubscribe ord self unsub).conflictFree s) trivial
  | processUpdate self msg =>
    exact iff_of_true ((ends_processUpdate self msg).conflictFree s) trivial
  | addPeer parse serverAddr =>
    exact iff_of_true ((ends_addPeer parse serverAddr).conflictFree s) trivial
  | removePeer parse addrStr =>
    exact iff_of_true ((ends_removePeer ord parse addrStr).conflictFree s) trivial
  | subscribe vni => exact iff_of_true ((ends_subscribe ord vni).conflictFree s) trivial
  | unsubscribe vni => exact iff_of_true ((ends_unsubscribe ord vni).conflictFree s) trivial
  | announceRoute vni dest nh =>
    exact iff_of_true ((ends_announceRoute vni dest nh).conflictFree s) trivial
  | withdrawRoute vni dest nh =>
    exact iff_of_true ((ends_withdrawRoute vni dest nh).conflictFree s) trivial

def subscribedNode : Node :=
  (exec [] ((Sample.peer 1 .incoming).processSubscribe ord ⟨100⟩) (Sample.node true)).shared

theorem cleanup_conflicts : ¬ ConflictFree []
    ((Operation.cleanupPeerState (Sample.peer 1 .incoming)).lockEvents .toList
      (subscribedNode .toList)) := by
  intro h
  have hsubs := (conflictFree_cleanupPeerState ..).mp h
  have hmem : 100 ∈ ((Sample.peer 1 .incoming).cellOf
      (subscribedNode .toList)).subscribedVnisRemote := by
    rw [subscribedNode, exec_processSubscribe]
    split
    · simp
    · simp only [Outcome.shared_done, cellOf_withCell, (PeerCell.sameLink_sendRoutes _ _).2.2,
        cellOf_subscribed, Finset.mem_insert_self]
  rw [hsubs] at hmem
  exact absurd hmem (Finset.notMem_empty _)

end MetalBond.SelfBlocking
