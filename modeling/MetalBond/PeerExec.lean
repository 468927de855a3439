import MetalBond.Sending

namespace MetalBond

open Async Task Collections HashMap

section Listings

variable (ord : HashOrder) {t : RouteTable} {vni : Vni} {r : Route}

theorem mem_routeList {dest : Destination} {nh : NextHop} {peers : Finset PeerKey} :
    (dest, nh, peers) ∈ Peer.routeList ord (t.getDestinationsByVniWithPeer vni) ↔
      t.Has (vni, dest, nh) ∧ peers = t.sources (vni, dest, nh) := by
  simp only [Peer.routeList, RouteTable.getDestinationsByVniWithPeer, List.mem_flatMap,
    List.mem_map, HashOrder.mem_list, Prod.mk.injEq]
  constructor
  · intro hex
    obtain ⟨dest, -, nh, hnh, rfl, rfl, rfl⟩ := hex
    exact ⟨((t.compact.nextHops vni dest).mem_keys nh).mp hnh, rfl⟩
  · intro hex
    obtain ⟨h, rfl⟩ := hex
    obtain ⟨-, hd, hn⟩ := RouteTable.mem_keys_of_has h
    exact ⟨dest, hd, nh, hn, rfl, rfl, rfl⟩

theorem nodup_routeList (destMap : DestinationMap) :
    ((Peer.routeList ord destMap).map fun x ↦ (x.1, x.2.1)).Nodup := by
  rw [Peer.routeList, List.map_flatMap]
  apply nodup_flatMap_of_tag Prod.fst (ord.nodup _)
  · intro dest
    rw [List.map_map]
    exact (ord.nodup _).map fun nh nh' h ↦ (Prod.mk.inj h).2
  · intro dest x hx
    simp only [List.map_map, List.mem_map] at hx
    obtain ⟨nh, -, rfl⟩ := hx
    rfl

theorem mem_announcementList :
    r ∈ Peer.announcementList ord t.getLocalAnnouncements ↔ none ∈ t.sources r := by
  obtain ⟨vni, dest, nh⟩ := r
  rw [← RouteTable.mem_getLocalAnnouncements]
  simp only [Peer.announcementList, List.mem_flatMap, List.mem_map, HashOrder.mem_list,
    Prod.mk.injEq]
  constructor
  · intro hex
    obtain ⟨vni, -, dest, -, nh, hnh, rfl, rfl, rfl⟩ := hex
    exact hnh
  · intro h
    have hd : valueAt (valueAt t.getLocalAnnouncements vni) dest ≠ ∅ := Finset.ne_empty_of_mem h
    have hv : valueAt t.getLocalAnnouncements vni ≠ ∅ := fun he ↦ hd (by rw [he, valueAt_empty])
    refine ⟨vni, ((full_prune _ _).mem_keys vni).mpr hv, dest, ?_, nh, h, rfl, rfl, rfl⟩
    refine (Full.mem_keys ?_ dest).mpr hd
    rw [RouteTable.getLocalAnnouncements, valueAt_prune (prune_empty _)]
    exact full_prune _ _

theorem nodup_announcementList (m : HashMap Vni (HashMap Destination (Finset NextHop))) :
    (Peer.announcementList ord m).Nodup := by
  apply nodup_flatMap_of_tag Prod.fst (ord.nodup _)
  · intro vni
    apply nodup_flatMap_of_tag (fun r ↦ r.2.1) (ord.nodup _)
    · intro dest
      exact (ord.nodup _).map fun nh nh' h ↦ (Prod.mk.inj (Prod.mk.inj h).2).2
    · intro dest r hr
      obtain ⟨nh, -, rfl⟩ := List.mem_map.mp hr
      rfl
  · intro vni r hr
    simp only [List.mem_flatMap, List.mem_map] at hr
    obtain ⟨dest, -, nh, -, rfl⟩ := hr
    rfl

end Listings

namespace Peer

variable (ord : HashOrder) (self : Peer) (held : List (Guard Lock)) (s : Node)

def cellOf (s : Node) : PeerCell := s.world.cell self.id

def withCell (s : Node) (c : PeerCell) : Node := { s with world := s.world.setCell self.id c }

@[simp] theorem world_cell : s.world.cell self.id = self.cellOf s := rfl

@[simp] theorem mk_withCell (c : PeerCell) :
    (⟨(self.withCell s c).world, s.chan⟩ : Node) = self.withCell s c := rfl

@[simp] theorem cellOf_withCell (c : PeerCell) : self.cellOf (self.withCell s c) = c := by
  simp only [cellOf, withCell, World.setCell_cell]

@[simp] theorem withCell_withCell (c c' : PeerCell) :
    self.withCell (self.withCell s c) c' = self.withCell s c' := by
  simp only [withCell, World.setCell_setCell]

@[simp] theorem withCell_cellOf : self.withCell s (self.cellOf s) = s := by
  simp only [withCell, cellOf, World.setCell_self]

@[simp] theorem withCell_chan (c : PeerCell) : (self.withCell s c).chan = s.chan := rfl

@[simp] theorem withCell_mb (c : PeerCell) : (self.withCell s c).world.mb = s.world.mb := rfl

@[simp] theorem exec_getState :
    exec [] self.getState s = .done (self.cellOf s).state [] s := exec_reading [] s rfl _

@[simp] theorem exec_sendMessage (msg : GeneratedMessage) :
    exec held (self.sendMessage msg) s =
      .done ((self.cellOf s).trySend msg).1 held
        (self.withCell s ((self.cellOf s).trySend msg).2) := rfl

@[simp] theorem exec_triggerShutdown :
    exec held self.triggerShutdown s =
      .done () held (self.withCell s { self.cellOf s with shutdownSignal := true }) := rfl

theorem exec_sendInitialSubscribes (vnis : List Vni) :
    exec held (self.sendInitialSubscribes vnis) s =
      .done () held (self.withCell s ((self.cellOf s).initialSubscribes vnis)) := by
  induction vnis generalizing s with
  | nil => simp [sendInitialSubscribes, PeerCell.initialSubscribes]
  | cons vni rest ih =>
    simp only [sendInitialSubscribes, exec_bind, sendSubscribe, exec_sendMessage,
      Outcome.done_andThen, PeerCell.initialSubscribes]
    rcases (self.cellOf s).trySend (.subscribe ⟨vni⟩) with ⟨_ | _, c⟩
    · simp [shutdownOnError, ih]
    · simp [shutdownOnError, ih]

theorem exec_sendInitialAnnouncements (routes : List Route) :
    exec held (self.sendInitialAnnouncements routes) s =
      .done () held (self.withCell s ((self.cellOf s).sendRoutes routes).2) := by
  induction routes generalizing s with
  | nil => simp [sendInitialAnnouncements, PeerCell.sendRoutes]
  | cons r rest ih =>
    obtain ⟨vni, dest, nh⟩ := r
    simp only [sendInitialAnnouncements, exec_bind, sendUpdate, exec_sendMessage,
      Outcome.done_andThen, PeerCell.sendRoutes]
    rcases (self.cellOf s).trySend (updateMessage .add vni dest nh) with ⟨_ | _, c⟩
    · simp
    · simp [ih]

def removal (source : SocketAddr) (r : Route) : InternalUpdate :=
  ⟨.remove, r.1, r.2.1, r.2.2, some source⟩

theorem exec_sendRemovals (source : SocketAddr) (routes : List Route) :
    exec held (sendRemovals source routes) s =
      .done () held { s with chan := s.chan.sendAll (routes.map (removal source)) } := by
  induction routes generalizing s with
  | nil => rfl
  | cons r rest ih =>
    simp only [sendRemovals, exec_bind, exec_sendOn, Outcome.done_andThen, ih, List.map_cons,
      Channel.sendAll_cons]
    rfl

def dropRoutes (addr : SocketAddr) (s : Node) : Node where
  world := s.world.modifyMb fun mb ↦ { mb with routeTable := mb.routeTable.dropPeer addr }
  chan := s.chan.sendAll
    ((s.world.mb.routeTable.removeRoutesFromPeer ord addr).1.map (removal addr))

theorem exec_dropSubscriptions :
    exec [(.metalbondState, .read)] self.dropSubscriptions s =
      if (self.cellOf s).subscribedVnisRemote = ∅ then .done () [(.metalbondState, .read)] s
      else .blocked .metalbondState .write s := by
  simp only [dropSubscriptions, exec_bind, exec_acquire, exec_gets]
  by_cases hsubs : (self.cellOf s).subscribedVnisRemote = ∅
  · simp [hsubs]
  · simp [hsubs, exec_bind, exec_acquire, Mode.conflicts]

/-- The guard of `cleanup_peer_state` excludes its own request as soon as the remote side
has a subscription. -/
theorem exec_cleanupPeerState :
    exec [] (self.cleanupPeerState ord) s =
      if (self.cellOf s).subscribedVnisRemote = ∅ then .done () [] (dropRoutes ord self.remoteAddr s)
      else .blocked .metalbondState .write (dropRoutes ord self.remoteAddr s) := by
  have hcell : self.cellOf (dropRoutes ord self.remoteAddr s) = self.cellOf s := rfl
  have hstart : exec [] (self.cleanupPeerState ord) s =
      exec [(.metalbondState, .read)] (do self.dropSubscriptions; release .metalbondState .read)
        (dropRoutes ord self.remoteAddr s) := by
    simp only [cleanupPeerState, exec_bind, exec_acquire, removeRoutesFromPeer, exec_update,
      exec_sendRemovals]
    rfl
  rw [hstart, exec_bind, exec_dropSubscriptions, hcell]
  split <;> simp

theorem exec_setState_self : exec [] (self.setState ord (self.cellOf s).state) s = .done () [] s := by
  simp [setState, exec_bind, exec_acquire]

theorem exec_setState_of_ne {newState : ConnectionState} (h : (self.cellOf s).state ≠ newState) :
    exec [] (self.setState ord newState) s =
      exec [] (if newState = .established then self.initialSync ord
        else if (self.cellOf s).state = .established then self.cleanupPeerState ord
        else ret ()) (self.withCell s { self.cellOf s with state := newState }) := by
  have hmod : s.world.modifyCell self.id (fun c ↦ { c with state := newState }) =
      (self.withCell s { self.cellOf s with state := newState }).world := rfl
  simp only [setState, exec_bind, exec_acquire, clashes_nil, Bool.false_eq_true, if_false,
    Outcome.done_andThen, exec_gets, world_cell, h, exec_modify, hmod, exec_release,
    List.erase_cons_head]
  by_cases he : newState = .established
  · subst he; simp [h]
  · by_cases ho : (self.cellOf s).state = .established
    · simp [he, ho]
    · simp [he, ho]

def synced (s : Node) (c : PeerCell) : PeerCell :=
  ((c.initialSubscribes (ord.list s.world.mb.mySubscriptions)).sendRoutes
    (announcementList ord s.world.mb.myAnnouncements.getLocalAnnouncements)).2

variable {ord} {s} in
theorem synced_empty (hsubs : s.world.mb.mySubscriptions = ∅)
    (hanns : s.world.mb.myAnnouncements = .new) (c : PeerCell) : synced ord s c = c := by
  simp [synced, hsubs, hanns, announcementList, RouteTable.getLocalAnnouncements, RouteTable.new,
    PeerCell.initialSubscribes, PeerCell.sendRoutes]

theorem exec_initialSync :
    exec [] (self.initialSync ord) s =
      .done () [] (self.withCell s (synced ord s (self.cellOf s))) := by
  simp only [initialSync, exec_bind, exec_reading [] _ rfl, Outcome.done_andThen,
    exec_sendInitialSubscribes, exec_sendInitialAnnouncements, withCell_withCell, cellOf_withCell]
  rfl

theorem sameLink_synced (c : PeerCell) : c.SameLink (synced ord s c) :=
  (c.sameLink_initialSubscribes _).trans (PeerCell.sameLink_sendRoutes _ _)

end Peer

end MetalBond
