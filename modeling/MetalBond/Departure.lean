import MetalBond.NodeExec

namespace MetalBond.Departure

open Async Task Collections HashMap Peer

variable (ord : HashOrder) (addr : SocketAddr) (s : Node)

/-- The withdrawals that were put on the channel are those of the routes whose last
source was the departing peer. -/
def WithdrawsOnlyGone (addr : SocketAddr) (s : Node)
    (o : Outcome Lock World InternalUpdate α) : Prop :=
  ∀ r : Route, (∃ u ∈ enqueued s o, u.action = .remove ∧ (u.vni, u.destination, u.nextHop) = r) ↔
    s.world.mb.routeTable.sources r = {some addr}

def Unshared (addr : SocketAddr) (t : RouteTable) : Prop :=
  ∀ r : Route, some addr ∈ t.sources r → t.sources r = {some addr}

theorem withdrawn_iff {α : Type} {o : Outcome Lock World InternalUpdate α} (s' : Node)
    (hopen : s'.chan.closed = false) (hchan : s'.chan = s.chan)
    (htable : s'.world.mb.routeTable = s.world.mb.routeTable)
    (ho : o.shared = dropRoutes ord addr s') (r : Route) :
    (∃ u ∈ enqueued s o, u.action = .remove ∧ (u.vni, u.destination, u.nextHop) = r) ↔
      some addr ∈ s.world.mb.routeTable.sources r := by
  have hsent : enqueued s o =
      (s.world.mb.routeTable.removeRoutesFromPeer ord addr).1.map (removal addr) := by
    rw [enqueued, ho, history_dropRoutes ord s' addr hopen, hchan, htable, List.drop_left]
  rw [hsent, ← RouteTable.mem_removeRoutesFromPeer ord]
  constructor
  · intro hex
    obtain ⟨u, hu, -, rfl⟩ := hex
    obtain ⟨r, hr, rfl⟩ := List.mem_map.mp hu
    exact hr
  · intro hr
    exact ⟨removal addr r, List.mem_map_of_mem hr, rfl, rfl⟩

theorem exact_iff {α : Type} {o : Outcome Lock World InternalUpdate α}
    (h : ∀ r : Route, (∃ u ∈ enqueued s o, u.action = .remove ∧
      (u.vni, u.destination, u.nextHop) = r) ↔ some addr ∈ s.world.mb.routeTable.sources r) :
    WithdrawsOnlyGone addr s o ↔ Unshared addr s.world.mb.routeTable := by
  simp only [WithdrawsOnlyGone, Unshared, h]
  constructor
  · intro hw r hr
    exact (hw r).mp hr
  · intro hu r
    exact ⟨hu r, fun hr ↦ by rw [hr]; exact Finset.mem_singleton_self _⟩

theorem withdrawn_cleanup (self : Peer) (hopen : s.chan.closed = false) (r : Route) :
    (∃ u ∈ enqueued s (exec [] (self.cleanupPeerState ord) s), u.action = .remove ∧
      (u.vni, u.destination, u.nextHop) = r) ↔
      some self.remoteAddr ∈ s.world.mb.routeTable.sources r := by
  refine withdrawn_iff ord _ s s hopen rfl rfl ?_ r
  rw [exec_cleanupPeerState]
  split <;> rfl

theorem withdrawn_removePeer (parse : String → Option SocketAddr) (addrStr : String)
    (hparse : parse addrStr = some addr) (hopen : s.chan.closed = false) (r : Route) :
    (∃ u ∈ enqueued s (exec [] (removePeer parse ord addrStr) s), u.action = .remove ∧
      (u.vni, u.destination, u.nextHop) = r) ↔ some addr ∈ s.world.mb.routeTable.sources r := by
  let s' : Node := { s with world := shutdownPeer addr (abortManager addr s.world) }
  have htable : s'.world.mb.routeTable = s.world.mb.routeTable := by simp [s']
  refine withdrawn_iff ord _ s s' hopen rfl htable ?_ r
  rw [exec_removePeer ord s _ hparse]
  rfl

/-- Both ways a peer leaves withdraw the right routes exactly when it shares none. -/
theorem withdraws_iff_unshared (self : Peer) (parse : String → Option SocketAddr)
    (addrStr : String) (hparse : parse addrStr = some addr) (hself : self.remoteAddr = addr)
    (hopen : s.chan.closed = false) :
    (WithdrawsOnlyGone addr s (exec [] (self.cleanupPeerState ord) s) ↔
      Unshared addr s.world.mb.routeTable) ∧
    (WithdrawsOnlyGone addr s (exec [] (removePeer parse ord addrStr) s) ↔
      Unshared addr s.world.mb.routeTable) := by
  subst hself
  exact ⟨exact_iff _ s (withdrawn_cleanup ord s self hopen),
    exact_iff _ s (withdrawn_removePeer ord _ s parse addrStr hparse hopen)⟩

def learnedNode : Node :=
  (exec [] ((Sample.peer 1 .incoming).processUpdate (Sample.update .add)) (Sample.node true)).shared

theorem sources_learnedNode (r : Route) : learnedNode.world.mb.routeTable.sources r =
    if r = Sample.route then {some (Sample.addr 1)} else ∅ := Sample.sources_learned _ r

/-- A route that only one peer has announced goes with it, either way. -/
theorem withdraws_iff_unshared_sample :
    some (Sample.addr 1) ∈ learnedNode.world.mb.routeTable.sources Sample.route ∧
    WithdrawsOnlyGone (Sample.addr 1) learnedNode
      (exec [] ((Sample.peer 1 .incoming).cleanupPeerState .toList) learnedNode) ∧
    WithdrawsOnlyGone (Sample.addr 1) learnedNode
      (exec [] (removePeer (fun _ ↦ some (Sample.addr 1)) .toList "") learnedNode) := by
  have hunshared : Unshared (Sample.addr 1) learnedNode.world.mb.routeTable := by
    intro r hr
    rw [sources_learnedNode] at hr ⊢
    split at hr
    · next h => rw [if_pos h]
    · exact absurd hr (Finset.notMem_empty _)
  obtain ⟨hcleanup, hremove⟩ := withdraws_iff_unshared .toList (Sample.addr 1) learnedNode
    (Sample.peer 1 .incoming) (fun _ ↦ some (Sample.addr 1)) "" rfl rfl rfl
  refine ⟨?_, hcleanup.mpr hunshared, hremove.mpr hunshared⟩
  rw [sources_learnedNode, if_pos rfl]
  exact Finset.mem_singleton_self _

def sharedNode : Node :=
  (exec [] ((Sample.peer 2 .incoming).processUpdate (Sample.update .add)) learnedNode).shared

theorem departure_withdraws_shared :
    ¬ WithdrawsOnlyGone (Sample.addr 1) sharedNode
      (exec [] ((Sample.peer 1 .incoming).cleanupPeerState .toList) sharedNode) ∧
    ¬ WithdrawsOnlyGone (Sample.addr 1) sharedNode
      (exec [] (removePeer (fun _ ↦ some (Sample.addr 1)) .toList "") sharedNode) := by
  have hshared : ¬ Unshared (Sample.addr 1) sharedNode.world.mb.routeTable := fun h ↦
    absurd (h Sample.route (by decide)) (by decide)
  have hclean := exact_iff _ sharedNode (withdrawn_cleanup .toList sharedNode
    (Sample.peer 1 .incoming) (by decide))
  have hremove := exact_iff _ sharedNode (withdrawn_removePeer .toList (Sample.addr 1) sharedNode
    (fun _ ↦ some (Sample.addr 1)) "" rfl (by decide))
  exact ⟨fun h ↦ hshared (hclean.mp h), fun h ↦ hshared (hremove.mp h)⟩

end MetalBond.Departure
