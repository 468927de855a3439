import MetalBond.PeerFrame
import MetalBond.UpdateLog

namespace MetalBond

open Async Task Collections HashMap Peer

section Tables

variable {r : Route} {vni : Vni} {dest : Destination} {nh : NextHop} {source : PeerKey} {w : World}

theorem sources_removeNextHop : (removeNextHop vni dest nh source w).2.mb.routeTable.sources r =
    if r = (vni, dest, nh) then (w.mb.routeTable.sources (vni, dest, nh)).erase source
    else w.mb.routeTable.sources r := by
  unfold removeNextHop
  by_cases hmem : source ∈ w.mb.routeTable.sources (vni, dest, nh)
  · rw [RouteTable.removeNextHop_of_mem hmem]
    exact RouteTable.sources_store ..
  · obtain ⟨e, he⟩ := RouteTable.removeNextHop_of_notMem hmem
    rw [Finset.erase_eq_of_notMem hmem]
    simp only [he]
    split
    · next hr => rw [hr]
    · rfl

theorem sources_applyUpdate (action : UpdateAction) :
    (applyUpdate action vni dest nh source w).2.mb.routeTable.sources r =
      if r = (vni, dest, nh) then
        match action with
        | .add => insert source (w.mb.routeTable.sources (vni, dest, nh))
        | .remove => (w.mb.routeTable.sources (vni, dest, nh)).erase source
      else w.mb.routeTable.sources r := by
  cases action with
  | add => exact RouteTable.sources_addNextHop
  | remove => exact sources_removeNextHop

theorem mem_sources_applyUpdate : source ∈
    (applyUpdate .add vni dest nh source w).2.mb.routeTable.sources (vni, dest, nh) := by
  rw [sources_applyUpdate, if_pos rfl]
  exact Finset.mem_insert_self ..

theorem applyUpdate_of_mem (h : source ∈ w.mb.routeTable.sources (vni, dest, nh)) :
    (applyUpdate .add vni dest nh source w).1 = .ok 999 := by
  simp [applyUpdate, addNextHop, RouteTable.addNextHop, h]

def RoutesOnly (w w' : World) : Prop :=
  ∃ t, w' = w.modifyMb fun mb ↦ { mb with routeTable := t }

theorem routesOnly_removeNextHop : RoutesOnly w (removeNextHop vni dest nh source w).2 :=
  tableOnly_removeNextHop ⟨w, .new⟩ vni dest nh source

theorem routesOnly_applyUpdate (action : UpdateAction) :
    RoutesOnly w (applyUpdate action vni dest nh source w).2 :=
  tableOnly_applyUpdate ⟨w, .new⟩ action vni dest nh source

theorem client_applyUpdate (action : UpdateAction) :
    (applyUpdate action vni dest nh source w).2.client = w.client := by
  obtain ⟨t, ht⟩ := @routesOnly_applyUpdate vni dest nh source w action
  rw [ht]
  rfl

theorem RoutesOnly.trans {w' w'' : World} (h : RoutesOnly w w') (h' : RoutesOnly w' w'') :
    RoutesOnly w w'' := by
  obtain ⟨t, rfl⟩ := h
  obtain ⟨t', rfl⟩ := h'
  exact ⟨t', rfl⟩

end Tables

namespace Peer

variable (ord : HashOrder) (self : Peer) (held : List (Guard Lock)) (s : Node)

def stored (action : UpdateAction) (vni : Vni) (dest : Destination) (nh : NextHop)
    (source : PeerKey) (s : Node) : Node where
  world := (applyUpdate action vni dest nh source s.world).2
  chan := s.chan.sendAll
    (changeUpdates action vni dest nh source (applyUpdate action vni dest nh source s.world).1)

theorem exec_sendChange (action : UpdateAction) (vni : Vni) (dest : Destination) (nh : NextHop)
    (source : PeerKey) (remaining : Except Error ℕ) :
    exec held (sendChange action vni dest nh source remaining) s = .done () held
      { s with chan := s.chan.sendAll (changeUpdates action vni dest nh source remaining) } := by
  cases remaining with
  | error e => rfl
  | ok n =>
    simp only [sendChange, changeUpdates]
    split
    · rfl
    · split <;> rfl

theorem exec_storeUpdate (action : UpdateAction) (vni : Vni) (dest : Destination) (nh : NextHop) :
    exec [] (self.storeUpdate action vni dest nh) s =
      .done (.ok ()) [] (stored action vni dest nh (some self.remoteAddr) s) := by
  simp only [storeUpdate, exec_bind, exec_acquire, clashes_nil, Bool.false_eq_true, if_false,
    Outcome.done_andThen, exec_update, exec_sendChange, exec_release, List.erase_cons_head]
  rfl

/-- A peer to which this node connected is only listened to about subscribed VNIs. -/
def Ignores (vni : Vni) (s : Node) : Prop :=
  vni ∉ s.world.mb.mySubscriptions ∧ self.direction = .outgoing

instance (vni : Vni) : Decidable (self.Ignores vni s) := inferInstanceAs (Decidable (_ ∧ _))

def updated (msg : Pb.Update) (s : Node) : Node :=
  match parseUpdate msg with
  | .error _ => s
  | .ok (action, vni, dest, nh) =>
    if self.Ignores vni s then s else stored action vni dest nh (some self.remoteAddr) s

theorem shared_processUpdate (msg : Pb.Update) :
    (exec [] (self.processUpdate msg) s).shared = self.updated msg s := by
  unfold processUpdate updated
  cases parseUpdate msg with
  | error e => rfl
  | ok x =>
    obtain ⟨action, vni, dest, nh⟩ := x
    simp only [exec_bind, exec_reading [] _ rfl, Outcome.done_andThen]
    by_cases hig : self.Ignores vni s
    · have hig' : vni ∉ s.world.mb.mySubscriptions ∧ self.direction = .outgoing := hig
      simp [hig, hig']
    · have hig' : ¬(vni ∉ s.world.mb.mySubscriptions ∧ self.direction = .outgoing) := hig
      have hcond : (!decide (vni ∈ s.world.mb.mySubscriptions) &&
          decide (self.direction = .outgoing)) = false := by
        simpa using hig'
      rw [if_neg hig, hcond]
      simp only [Bool.false_eq_true, if_false, exec_storeUpdate, Outcome.shared_done]

def dropped (vni : Vni) (source : PeerKey) (s : Node) (r : Destination × NextHop) : Node where
  world := (removeNextHop vni r.1 r.2 source s.world).2
  chan := s.chan.sendAll (goneUpdates ⟨.remove, vni, r.1, r.2, source⟩
    (removeNextHop vni r.1 r.2 source s.world).1)

theorem exec_sendIfGone (u : InternalUpdate) (remaining : Except Error ℕ) :
    exec held (sendIfGone u remaining) s =
      .done () held { s with chan := s.chan.sendAll (goneUpdates u remaining) } := by
  match remaining with
  | .ok 0 => rfl
  | .ok (n + 1) => rfl
  | .error e => rfl

def ownRoutes (routes : List (Destination × NextHop × Finset PeerKey)) :
    List (Destination × NextHop) :=
  (routes.filter fun x ↦ some self.remoteAddr ∈ x.2.2).map fun x ↦ (x.1, x.2.1)

theorem exec_removeLearned (vni : Vni) (routes : List (Destination × NextHop × Finset PeerKey)) :
    exec [] (self.removeLearned vni routes) s =
      .done () [] ((self.ownRoutes routes).foldl (dropped vni (some self.remoteAddr)) s) := by
  induction routes generalizing s with
  | nil => rfl
  | cons x rest ih =>
    obtain ⟨dest, nh, sources⟩ := x
    by_cases hmem : some self.remoteAddr ∈ sources
    · simp only [removeLearned, hmem, if_true, exec_bind, exec_acquire, clashes_nil,
        Bool.false_eq_true, if_false, Outcome.done_andThen, exec_update, exec_sendIfGone,
        exec_release, List.erase_cons_head, ih]
      simp only [ownRoutes, hmem, decide_true, List.filter_cons_of_pos]
      rfl
    · simp only [removeLearned, hmem, if_false, ih]
      simp [ownRoutes, hmem]

theorem routesOnly_foldl_dropped (vni : Vni) (source : PeerKey)
    (routes : List (Destination × NextHop)) :
    RoutesOnly s.world (routes.foldl (dropped vni source) s).world := by
  induction routes generalizing s with
  | nil => exact ⟨s.world.mb.routeTable, rfl⟩
  | cons x rest ih => exact routesOnly_removeNextHop.trans (ih (dropped vni source s x))

theorem sources_foldl_dropped (vni : Vni) (source : PeerKey) (routes : List (Destination × NextHop))
    (r : Route) : (routes.foldl (dropped vni source) s).world.mb.routeTable.sources r =
      if r.1 = vni ∧ r.2 ∈ routes then (s.world.mb.routeTable.sources r).erase source
      else s.world.mb.routeTable.sources r := by
  induction routes generalizing s with
  | nil => simp
  | cons x rest ih =>
    obtain ⟨v, d⟩ := r
    have hdrop : (dropped vni source s x).world.mb.routeTable.sources (v, d) =
        if (v, d) = (vni, x) then (s.world.mb.routeTable.sources (vni, x)).erase source
        else s.world.mb.routeTable.sources (v, d) := sources_removeNextHop
    rw [List.foldl_cons, ih, hdrop]
    by_cases hx : (v, d) = (vni, x)
    · cases hx
      simp
    · have hx' : ¬ (v = vni ∧ d = x) := by simpa using hx
      have hcons : (v = vni ∧ d ∈ x :: rest) ↔ v = vni ∧ d ∈ rest := by
        rw [List.mem_cons]
        tauto
      simp only [hcons, if_neg hx]

theorem mem_ownRoutes {t : RouteTable} {vni : Vni} {x : Destination × NextHop} :
    x ∈ self.ownRoutes (routeList ord (t.getDestinationsByVniWithPeer vni)) ↔
      some self.remoteAddr ∈ t.sources (vni, x) := by
  obtain ⟨dest, nh⟩ := x
  simp only [ownRoutes, List.mem_map, List.mem_filter, Prod.exists, mem_routeList, Prod.mk.injEq,
    decide_eq_true_eq]
  constructor
  · intro hex
    obtain ⟨dest, nh, sources, ⟨⟨-, rfl⟩, hmem⟩, rfl, rfl⟩ := hex
    exact hmem
  · intro hmem
    exact ⟨dest, nh, _, ⟨⟨RouteTable.has_of_mem hmem, rfl⟩, hmem⟩, rfl, rfl⟩

theorem shared_processUnsubscribe (unsub : Pb.Subscription) :
    (exec [] (self.processUnsubscribe ord unsub) s).shared =
      if self.remoteAddr ∈ valueAt s.world.mb.subscribers unsub.vni then
        (self.ownRoutes (routeList ord
          (s.world.mb.routeTable.getDestinationsByVniWithPeer unsub.vni))).foldl
          (dropped unsub.vni (some self.remoteAddr)) (self.unsubscribed unsub.vni s)
      else self.unsubscribed unsub.vni s := by
  have hremoved : (removeSubscriber self.remoteAddr unsub.vni s.world).1 =
      decide (self.remoteAddr ∈ valueAt s.world.mb.subscribers unsub.vni) := by
    unfold removeSubscriber valueAt
    cases s.world.mb.subscribers.lookup unsub.vni <;> simp
  have htable := self.routeTable_unsubscribed s unsub.vni
  unfold processUnsubscribe recordUnsubscription
  simp only [exec_bind, exec_writing [] _ rfl, Outcome.done_andThen, hremoved]
  split
  · next hmem =>
    rw [decide_eq_true_eq] at hmem
    rw [if_pos hmem]
    simp only [exec_bind, exec_reading [] _ rfl, exec_removeLearned, Outcome.done_andThen]
    rw [← htable]
    rfl
  · next hmem =>
    rw [decide_eq_true_eq] at hmem
    rw [if_neg hmem]
    rfl

end Peer

end MetalBond
