import MetalBond.Async.Guards
import MetalBond.PeerExec

namespace MetalBond

open Async Task Collections HashMap

namespace Peer

variable (ord : HashOrder) (self : Peer) (s : Node)

def entered (newState : ConnectionState) (s : Node) (c : PeerCell) : PeerCell :=
  if newState = .established then synced ord s { c with state := newState }
  else { c with state := newState }

theorem exec_setState_enter {newState : ConnectionState} (hne : (self.cellOf s).state ≠ newState)
    (hold : (self.cellOf s).state ≠ .established) :
    exec [] (self.setState ord newState) s =
      .done () [] (self.withCell s (entered ord newState s (self.cellOf s))) := by
  rw [exec_setState_of_ne ord self s hne]
  unfold entered
  split
  · rw [exec_initialSync, cellOf_withCell, withCell_withCell]
    rfl
  · simp

theorem exec_setState_leave {newState : ConnectionState} (hne : newState ≠ .established)
    (hold : (self.cellOf s).state = .established) :
    exec [] (self.setState ord newState) s =
      exec [] (self.cleanupPeerState ord)
        (self.withCell s { self.cellOf s with state := newState }) := by
  rw [exec_setState_of_ne ord self s (fun h ↦ hne (h.symm.trans hold)), if_neg hne, if_pos hold]

def onHello (hello : Pb.Hello) (c : PeerCell) : Except Error Unit × PeerCell :=
  if hello.keepaliveInterval = 0 then (.error .zeroKeepaliveInterval, c)
  else
    let c := { c with isRemoteServer := hello.isServer }
    match self.direction with
    | .incoming =>
      if c.state = .connecting ∨ c.state = .helloReceived then
        match c.trySend (.hello ⟨self.config.keepaliveInterval.asSecs.toUInt32, true⟩) with
        | (.error e, c) => (.error (.context "Failed to send HELLO response" e), c)
        | (.ok _, c) => (.ok (), { c with state := .helloSent })
      else (.ok (), c)
    | .outgoing =>
      if c.state = .helloSent then (.ok (), { c with state := .helloReceived }) else (.ok (), c)

def onKeepalive (s : Node) (c : PeerCell) : Except Error Unit × PeerCell :=
  match self.direction with
  | .incoming =>
    if c.state = .helloSent then (.ok (), synced ord s { c with state := .established })
    else if c.state = .established then
      let r := c.trySend .keepalive
      (withContext "Failed to send KEEPALIVE response" r.1, r.2)
    else (.error .keepaliveInWrongState, c)
  | .outgoing =>
    if c.state = .helloReceived then (.ok (), synced ord s { c with state := .established })
    else if c.state = .established then (.ok (), c)
    else (.error .keepaliveInWrongState, c)

theorem exec_processHello (hello : Pb.Hello) :
    exec [] (self.processHello ord hello) s =
      .done (self.onHello hello (self.cellOf s)).1 []
        (self.withCell s (self.onHello hello (self.cellOf s)).2) := by
  unfold processHello onHello
  split
  · simp
  · have hmod : s.world.modifyCell self.id (fun c ↦ { c with isRemoteServer := hello.isServer }) =
        (self.withCell s { self.cellOf s with isRemoteServer := hello.isServer }).world := rfl
    simp only [exec_bind, exec_writing [] _ rfl, Outcome.done_andThen, hmod, exec_getState,
      mk_withCell, cellOf_withCell]
    cases self.direction with
    | incoming =>
      by_cases hst : (self.cellOf s).state = .connecting ∨ (self.cellOf s).state = .helloReceived
      · simp only [hst, if_true, exec_bind, sendHello, exec_sendMessage, Outcome.done_andThen,
          cellOf_withCell, withCell_withCell]
        have hlink := PeerCell.sameLink_trySend
          { self.cellOf s with isRemoteServer := hello.isServer }
          (.hello ⟨self.config.keepaliveInterval.asSecs.toUInt32, true⟩)
        rcases hr : PeerCell.trySend { self.cellOf s with isRemoteServer := hello.isServer }
          (.hello ⟨self.config.keepaliveInterval.asSecs.toUInt32, true⟩) with ⟨_ | _, c⟩
        · simp
        · have hc : c.state = .connecting ∨ c.state = .helloReceived := by
            rw [hr] at hlink
            exact hlink.2.1 ▸ hst
          have hne : c.state ≠ .helloSent ∧ c.state ≠ .established := by
            rcases hc with hc | hc <;> simp [hc]
          simp only
          rw [exec_bind, exec_setState_enter] <;> simp [entered, hne]
      · simp [hst]
    | outgoing =>
      by_cases hst : (self.cellOf s).state = .helloSent
      · simp only [hst, if_true]
        rw [exec_bind, exec_setState_enter] <;> simp [entered]
      · simp [hst]

theorem exec_processKeepalive :
    exec [] (self.processKeepalive ord) s =
      .done (self.onKeepalive ord s (self.cellOf s)).1 []
        (self.withCell s (self.onKeepalive ord s (self.cellOf s)).2) := by
  unfold processKeepalive onKeepalive
  simp only [exec_bind, exec_getState, Outcome.done_andThen]
  cases self.direction with
  | incoming =>
    by_cases hsent : (self.cellOf s).state = .helloSent
    · simp only [hsent, if_true]
      rw [exec_bind, exec_setState_enter] <;> simp [entered, hsent]
    · by_cases hest : (self.cellOf s).state = .established
      · simp [hest, sendKeepalive, exec_bind]
      · simp [hsent, hest]
  | outgoing =>
    by_cases hrec : (self.cellOf s).state = .helloReceived
    · simp only [hrec, if_true]
      rw [exec_bind, exec_setState_enter] <;> simp [entered, hrec]
    · by_cases hest : (self.cellOf s).state = .established
      · simp [hest]
      · simp [hrec, hest]

/-- Loop prevention: a route with a NAT hop is not sent to one of its own sources. -/
def Exempt (x : Destination × NextHop × Finset PeerKey) : Prop :=
  x.2.1.hopType = .nat ∧ some self.remoteAddr ∈ x.2.2

instance : DecidablePred self.Exempt := fun _ ↦ inferInstanceAs (Decidable (_ ∧ _))

def wanted (vni : Vni) (routes : List (Destination × NextHop × Finset PeerKey)) : List Route :=
  (routes.filter fun x ↦ ¬ self.Exempt x).map fun x ↦ (vni, x.1, x.2.1)

@[simp] theorem isServerToServerLoop_eq (b : Bool) (sources : Finset PeerKey) :
    isServerToServerLoop b sources = false := by
  simp [isServerToServerLoop]

theorem exec_sendExisting (vni : Vni) (routes : List (Destination × NextHop × Finset PeerKey)) :
    exec [] (self.sendExisting vni routes) s =
      .done ((self.cellOf s).sendRoutes (self.wanted vni routes)).1 []
        (self.withCell s ((self.cellOf s).sendRoutes (self.wanted vni routes)).2) := by
  induction routes generalizing s with
  | nil => simp [sendExisting, wanted, PeerCell.sendRoutes]
  | cons x rest ih =>
    obtain ⟨dest, nh, sources⟩ := x
    simp only [sendExisting, exec_bind, exec_reading [] _ rfl, Outcome.done_andThen,
      isServerToServerLoop_eq]
    by_cases hx : self.Exempt (dest, nh, sources)
    · have hw : self.wanted vni ((dest, nh, sources) :: rest) = self.wanted vni rest := by
        simp [wanted, hx]
      have hx' : nh.hopType = .nat ∧ some self.remoteAddr ∈ sources := hx
      simp only [hx', hw, ih, and_self, decide_true, Bool.not_true, Bool.false_and,
        Bool.false_eq_true, if_false]
    · have hw : self.wanted vni ((dest, nh, sources) :: rest) =
          (vni, dest, nh) :: self.wanted vni rest := by
        simp [wanted, hx]
      have hx' : ¬(nh.hopType = .nat ∧ some self.remoteAddr ∈ sources) := hx
      simp only [hx', hw, decide_false, Bool.not_false, Bool.and_self, if_true, exec_bind,
        sendUpdate, exec_sendMessage, Outcome.done_andThen, PeerCell.sendRoutes]
      rcases (self.cellOf s).trySend (updateMessage .add vni dest nh) with ⟨_ | _, c⟩
      · simp [exec_bind]
      · simp [ih]

def subscribed (vni : Vni) (s : Node) : Node where
  world := (addSubscriber self.remoteAddr vni s.world).2.modifyCell self.id fun c ↦
    { c with subscribedVnisRemote := insert vni c.subscribedVnisRemote }
  chan := s.chan

@[simp] theorem routeTable_subscribed (vni : Vni) :
    (self.subscribed vni s).world.mb.routeTable = s.world.mb.routeTable := rfl

@[simp] theorem cellOf_subscribed (vni : Vni) :
    self.cellOf (self.subscribed vni s) =
      { self.cellOf s with
        subscribedVnisRemote := insert vni (self.cellOf s).subscribedVnisRemote } := by
  simp only [subscribed, cellOf, World.modifyCell_cell]
  rfl

def snapshotFor (vni : Vni) (s : Node) : List Route :=
  self.wanted vni (routeList ord (s.world.mb.routeTable.getDestinationsByVniWithPeer vni))

theorem mem_snapshotFor {vni : Vni} {r : Route} : r ∈ self.snapshotFor ord vni s ↔
    r.1 = vni ∧ s.world.mb.routeTable.Has r ∧
      ¬ self.Exempt (r.2.1, r.2.2, s.world.mb.routeTable.sources r) := by
  obtain ⟨v, dest, nh⟩ := r
  simp only [snapshotFor, wanted, List.mem_map, List.mem_filter, Prod.mk.injEq, Prod.exists,
    mem_routeList, decide_eq_true_eq]
  constructor
  · intro hex
    obtain ⟨dest, nh, peers, ⟨⟨hhas, rfl⟩, hex⟩, rfl, rfl, rfl⟩ := hex
    exact ⟨rfl, hhas, hex⟩
  · intro hex
    obtain ⟨rfl, hhas, hex⟩ := hex
    exact ⟨dest, nh, _, ⟨⟨hhas, rfl⟩, hex⟩, rfl, rfl, rfl⟩

theorem nodup_snapshotFor (vni : Vni) : (self.snapshotFor ord vni s).Nodup := by
  let routes := routeList ord (s.world.mb.routeTable.getDestinationsByVniWithPeer vni)
  have hsub : ((routes.filter fun x ↦ ¬ self.Exempt x).map fun x ↦ (x.1, x.2.1)).Nodup :=
    (nodup_routeList ord _).sublist (List.filter_sublist.map _)
  have hnd := hsub.map (Prod.mk_right_injective vni)
  rwa [List.map_map] at hnd

theorem exec_processSubscribe (sub : Pb.Subscription) :
    exec [] (self.processSubscribe ord sub) s =
      if self.remoteAddr ∈ valueAt s.world.mb.subscribers sub.vni then
        .done (.ok ()) [] (self.subscribed sub.vni s)
      else
        let r := (self.cellOf (self.subscribed sub.vni s)).sendRoutes
          (self.snapshotFor ord sub.vni s)
        .done r.1 [] (self.withCell (self.subscribed sub.vni s) r.2) := by
  unfold processSubscribe recordSubscription
  simp only [exec_bind, exec_writing [] _ rfl, Outcome.done_andThen]
  by_cases hmem : self.remoteAddr ∈ valueAt s.world.mb.subscribers sub.vni
  · simp only [addSubscriber, hmem, not_true_eq_false, decide_false, Bool.false_eq_true, if_false,
      if_true]
    rfl
  · simp only [addSubscriber, hmem, not_false_eq_true, decide_true, if_true, if_false,
      sendSnapshot, exec_bind, exec_reading [] _ rfl, Outcome.done_andThen]
    exact exec_sendExisting self (self.subscribed sub.vni s) sub.vni _

end Peer

namespace Sample

/-- A peer that asks for the VNI is told the only route of the table. -/
theorem snapshotFor_learned (ord : HashOrder) (p : Peer) {s : Node} {k : PeerKey}
    (h : s.world.mb.routeTable = (RouteTable.new.addNextHop 100 destination nextHop k).2) :
    p.snapshotFor ord 100 s = [route] := by
  have hmem : ∀ r, r ∈ p.snapshotFor ord 100 s ↔ r ∈ [route] := by
    intro r
    rw [Peer.mem_snapshotFor, RouteTable.Has, h, sources_learned, List.mem_singleton]
    refine ⟨fun hlisted ↦ ?_, fun hr ↦ ?_⟩
    · by_contra hr
      exact hlisted.2.1 (if_neg hr)
    · subst hr
      have hstandard : nextHop.hopType ≠ .nat := by decide
      refine ⟨rfl, ?_, fun hexempt ↦ hstandard hexempt.1⟩
      rw [if_pos rfl]
      exact Finset.singleton_ne_empty k
  have hnd := Peer.nodup_snapshotFor ord p s 100
  exact List.perm_singleton.mp ((List.perm_ext_iff_of_nodup hnd (List.nodup_singleton _)).mpr hmem)

end Sample

end MetalBond
