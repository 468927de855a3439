import MetalBond.Collections.Interleaving
import MetalBond.TableExec

namespace MetalBond.Ownership

open Async Task Collections HashMap Peer

inductive Message
  | subscribe (sub : Pb.Subscription)
  | unsubscribe (unsub : Pb.Subscription)
  | update (msg : Pb.Update)

namespace Message

def toGenerated : Message → GeneratedMessage
  | subscribe sub => .subscribe sub
  | unsubscribe unsub => .unsubscribe unsub
  | update msg => .update msg

def subscription : Message → Option Vni
  | subscribe sub => some sub.vni
  | unsubscribe unsub => some unsub.vni
  | update _ => none

end Message

def Handles (self : Peer) (m : Message) (s s' : Node) : Prop :=
  ∃ ord r, exec [] (self.process ord m.toGenerated) s = .done r [] s'

/-- What a peer has in the shared tables: the routes it is a source of and the VNIs it is a
subscriber of. What it may add depends on the VNIs to which this node listens. -/
@[ext] structure Holdings where
  routes : Set Route
  vnis : Set Vni
  listens : Finset Vni

def holdings (k : PeerKey) (s : Node) : Holdings where
  routes := {r | k ∈ s.world.mb.routeTable.sources r}
  vnis := {v | ∃ addr ∈ valueAt s.world.mb.subscribers v, k = some addr}
  listens := s.world.mb.mySubscriptions

namespace Holdings

variable (self : Peer) (h : Holdings)

def routesAfter (msg : Pb.Update) : Set Route :=
  match parseUpdate msg with
  | .error _ => h.routes
  | .ok (action, vni, dest, nh) =>
    if vni ∉ h.listens ∧ self.direction = .outgoing then h.routes
    else match action with
      | .add => insert (vni, dest, nh) h.routes
      | .remove => h.routes \ {(vni, dest, nh)}

def unsubscribe (vni : Vni) : Holdings where
  routes := {r ∈ h.routes | ¬(r.1 = vni ∧ vni ∈ h.vnis)}
  vnis := h.vnis \ {vni}
  listens := h.listens

def handle : Message → Holdings
  | .subscribe sub => { h with vnis := insert sub.vni h.vnis }
  | .unsubscribe unsub => h.unsubscribe unsub.vni
  | .update msg => { h with routes := h.routesAfter self msg }

end Holdings

variable {self : Peer} {s s' : Node} {k : PeerKey} {m : Message}

theorem mem_vnis {addr : SocketAddr} {v : Vni} : v ∈ (holdings (some addr) s).vnis ↔
    addr ∈ valueAt s.world.mb.subscribers v := by
  simp [holdings]

theorem Handles.shared (h : Handles self m s s') :
    ∃ ord, s' = (exec [] (self.process ord m.toGenerated) s).shared := by
  obtain ⟨ord, r, hexec⟩ := h
  exact ⟨ord, by rw [hexec, Outcome.shared_done]⟩

theorem exists_handles (self : Peer) (m : Message) (s : Node) : ∃ s', Handles self m s s' := by
  let ord : HashOrder := .toList
  cases m with
  | subscribe sub =>
    have hexec := exec_processSubscribe ord self s sub
    split at hexec
    · exact ⟨_, ord, _, hexec⟩
    · exact ⟨_, ord, _, hexec⟩
  | unsubscribe unsub =>
    obtain ⟨r, s', hexec⟩ := ends_processUnsubscribe ord self unsub s
    exact ⟨s', ord, r, hexec⟩
  | update msg =>
    obtain ⟨r, s', hexec⟩ := ends_processUpdate self msg s
    exact ⟨s', ord, r, hexec⟩

theorem mb_subscribe {sub : Pb.Subscription} (h : Handles self (.subscribe sub) s s') :
    s'.world.mb = (addSubscriber self.remoteAddr sub.vni s.world).2.mb := by
  obtain ⟨ord, rfl⟩ := h.shared
  simp only [process, Message.toGenerated, exec_processSubscribe]
  split <;> rfl

theorem mb_unsubscribe {unsub : Pb.Subscription} (h : Handles self (.unsubscribe unsub) s s') :
    ∃ t : RouteTable, s'.world.mb = { s.world.mb with
        routeTable := t
        subscribers := (removeSubscriber self.remoteAddr unsub.vni s.world).2.mb.subscribers } ∧
      ∀ r, t.sources r =
        if r.1 = unsub.vni ∧ self.remoteAddr ∈ valueAt s.world.mb.subscribers unsub.vni then
          (s.world.mb.routeTable.sources r).erase (some self.remoteAddr)
        else s.world.mb.routeTable.sources r := by
  obtain ⟨ord, rfl⟩ := h.shared
  have htable := self.routeTable_unsubscribed s unsub.vni
  have hmb := self.mb_unsubscribed s unsub.vni
  simp only [process, Message.toGenerated, shared_processUnsubscribe]
  split
  · next hmem =>
    let routes := self.ownRoutes (routeList ord
      (s.world.mb.routeTable.getDestinationsByVniWithPeer unsub.vni))
    obtain ⟨t, ht⟩ := routesOnly_foldl_dropped (self.unsubscribed unsub.vni s) unsub.vni
      (some self.remoteAddr) routes
    refine ⟨t, (congrArg World.mb ht).trans (by rw [World.modifyMb_mb, hmb]), fun r ↦ ?_⟩
    have hsources := sources_foldl_dropped (self.unsubscribed unsub.vni s) unsub.vni
      (some self.remoteAddr) routes r
    rw [ht, htable] at hsources
    rw [show t.sources r = _ from hsources]
    obtain ⟨v, d⟩ := r
    by_cases hv : v = unsub.vni
    · subst hv
      by_cases hd : d ∈ routes
      · simp [hd, hmem]
      · have hnot := fun h ↦ hd ((self.mem_ownRoutes ord).mpr h)
        simp [hd, hmem, Finset.erase_eq_of_notMem hnot]
    · simp [hv]
  · next hmem =>
    exact ⟨s.world.mb.routeTable, hmb, fun r ↦ by simp [hmem]⟩

theorem mb_update {msg : Pb.Update} (h : Handles self (.update msg) s s') :
    ∃ t : RouteTable, s'.world.mb = { s.world.mb with routeTable := t } ∧
      ∀ r k, k ∈ t.sources r ↔ if k = some self.remoteAddr
        then r ∈ (holdings k s).routesAfter self msg
        else k ∈ s.world.mb.routeTable.sources r := by
  obtain ⟨ord, rfl⟩ := h.shared
  simp only [process, Message.toGenerated, shared_processUpdate, updated, Holdings.routesAfter]
  cases parseUpdate msg with
  | error e => exact ⟨s.world.mb.routeTable, rfl, fun r k ↦ by simp [holdings]⟩
  | ok x =>
    obtain ⟨action, vni, dest, nh⟩ := x
    by_cases hig : self.Ignores vni s
    · have hig' : vni ∉ s.world.mb.mySubscriptions ∧ self.direction = .outgoing := hig
      refine ⟨s.world.mb.routeTable, by simp [hig], fun r k ↦ ?_⟩
      simp [holdings, hig']
    · have hig' : ¬(vni ∉ s.world.mb.mySubscriptions ∧ self.direction = .outgoing) := hig
      obtain ⟨t, ht⟩ := @routesOnly_applyUpdate vni dest nh (some self.remoteAddr) s.world action
      refine ⟨t, by simp only [if_neg hig]; exact congrArg World.mb ht, fun r k ↦ ?_⟩
      have hsources := @sources_applyUpdate r vni dest nh (some self.remoteAddr) s.world action
      rw [ht] at hsources
      rw [show t.sources r = _ from hsources]
      simp only [holdings, hig', if_false]
      by_cases hr : r = (vni, dest, nh)
      · by_cases hk : k = some self.remoteAddr <;> cases action <;> simp [hr, hk]
      · by_cases hk : k = some self.remoteAddr <;> cases action <;> simp [hr, hk]

theorem holdings_self (h : Handles self m s s') :
    holdings (some self.remoteAddr) s' = (holdings (some self.remoteAddr) s).handle self m := by
  cases m with
  | subscribe sub =>
    have hmb := mb_subscribe h
    ext x
    · simp only [holdings, hmb]
      rfl
    · simp only [mem_vnis, hmb, subscribers_addSubscriber, Holdings.handle,
        Set.mem_insert_iff]
      by_cases hx : x = sub.vni <;> simp [hx]
    · simp only [holdings, hmb]
      rfl
  | unsubscribe unsub =>
    obtain ⟨t, hmb, ht⟩ := mb_unsubscribe h
    have hsubs := fun v ↦
      Peer.subscribers_removeSubscriber self.remoteAddr unsub.vni v s.world
    ext x
    · simp only [holdings, hmb, Set.mem_ofPred_eq, ht, Holdings.handle, Holdings.unsubscribe]
      by_cases hx : x.1 = unsub.vni ∧ self.remoteAddr ∈ valueAt s.world.mb.subscribers unsub.vni
      · simp [hx]
      · simp [hx]
    · simp only [mem_vnis, hmb, hsubs, Holdings.handle, Holdings.unsubscribe, Set.mem_sdiff,
        Set.mem_singleton_iff]
      by_cases hx : x = unsub.vni <;> simp [hx]
    · simp only [holdings, hmb]
      rfl
  | update msg =>
    obtain ⟨t, hmb, ht⟩ := mb_update h
    ext x
    · simp only [holdings, hmb, Set.mem_ofPred_eq, ht]
      rfl
    · simp only [holdings, hmb]
      rfl
    · simp only [holdings, hmb]
      rfl

theorem holdings_other (h : Handles self m s s') (hk : k ≠ some self.remoteAddr) :
    holdings k s' = holdings k s := by
  have haddr : ∀ addr, k = some addr → addr ≠ self.remoteAddr := fun addr hadd heq ↦
    hk (heq ▸ hadd)
  cases m with
  | subscribe sub =>
    have hmb := mb_subscribe h
    ext v
    · simp only [holdings, hmb]
      rfl
    · simp only [holdings, hmb, subscribers_addSubscriber, Set.mem_ofPred_eq]
      refine exists_congr fun addr ↦ and_congr_left fun hadd ↦ ?_
      by_cases hv : v = sub.vni
      · simp [hv, haddr addr hadd]
      · simp [hv]
    · simp only [holdings, hmb]
      rfl
  | unsubscribe unsub =>
    obtain ⟨t, hmb, ht⟩ := mb_unsubscribe h
    ext v
    · simp only [holdings, hmb, Set.mem_ofPred_eq, ht]
      split <;> simp [hk]
    · simp only [holdings, hmb, Peer.subscribers_removeSubscriber, Set.mem_ofPred_eq]
      refine exists_congr fun addr ↦ and_congr_left fun hadd ↦ ?_
      by_cases hv : v = unsub.vni
      · simp [hv, haddr addr hadd]
      · simp [hv]
    · simp only [holdings, hmb]
  | update msg =>
    obtain ⟨t, hmb, ht⟩ := mb_update h
    ext v
    · simp only [holdings, hmb, Set.mem_ofPred_eq, ht, if_neg hk]
    · simp only [holdings, hmb]
    · simp only [holdings, hmb]

def Blank (v : Vni) (s : Node) : Prop := s.world.mb.subscribers.lookup v = some ∅

theorem blank_iff (h : Handles self m s s') (v : Vni) :
    Blank v s' ↔ m.subscription ≠ some v ∧ Blank v s := by
  cases m with
  | subscribe sub =>
    rw [Blank, mb_subscribe h]
    simp only [addSubscriber, World.modifyMb_mb, Message.subscription, Blank, ne_eq, Option.some.injEq]
    by_cases hv : v = sub.vni
    · subst hv
      simp
    · rw [Finmap.lookup_insert_of_ne _ hv]
      exact (and_iff_right (Ne.symm hv)).symm
  | unsubscribe unsub =>
    obtain ⟨t, hmb, -⟩ := mb_unsubscribe h
    rw [Blank, hmb]
    simp only [removeSubscriber, Message.subscription, Blank, ne_eq, Option.some.injEq]
    cases hlookup : s.world.mb.subscribers.lookup unsub.vni with
    | none =>
      refine (and_iff_right_of_imp fun hblank hv ↦ ?_).symm
      rw [← hv, hlookup] at hblank
      cases hblank
    | some peerSet =>
      simp only [World.modifyMb_mb, lookup_put]
      by_cases hv : v = unsub.vni
      · subst hv
        by_cases hempty : peerSet.erase self.remoteAddr = ∅ <;> simp [hempty]
      · simp [hv, Ne.symm hv]
  | update msg =>
    obtain ⟨t, hmb, -⟩ := mb_update h
    rw [Blank, hmb]
    simp [Message.subscription, Blank]

variable {ι : Type} {peer : ι → Peer} {events events' : List (ι × Message)}

abbrev HandleAll (peer : ι → Peer) : Node → List (ι × Message) → Node → Prop :=
  RunAll fun i ↦ Handles (peer i)

theorem local_holdings : Local (fun i ↦ Handles (peer i)) (fun i ↦ some (peer i).remoteAddr)
    holdings where
  own h h' heq := by rw [holdings_self h, holdings_self h', heq]
  other h hk := holdings_other h hk

theorem blank_runAll_iff (h : HandleAll peer s events s') (v : Vni) :
    Blank v s' ↔ (∀ e ∈ events, e.2.subscription ≠ some v) ∧ Blank v s := by
  induction h with
  | nil s => simp
  | cons hstep _ ih => rw [ih, blank_iff hstep, List.forall_mem_cons, and_left_comm, and_assoc]

theorem ext_subscribers {m m' : HashMap Vni (Finset SocketAddr)}
    (hvalue : ∀ v, valueAt m v = valueAt m' v) (hblank : ∀ v, m.lookup v = some ∅ ↔
      m'.lookup v = some ∅) : m = m' := by
  apply Finmap.ext_lookup
  intro v
  have hv := hvalue v
  by_cases hb : m.lookup v = some ∅
  · rw [hb, (hblank v).mp hb]
  · have hb' : m'.lookup v ≠ some ∅ := fun h ↦ hb ((hblank v).mpr h)
    cases hm : m.lookup v <;> cases hm' : m'.lookup v <;> simp_all [valueAt]

theorem tables_eq [DecidableEq ι] (hpeer : Function.Injective fun i ↦ (peer i).remoteAddr)
    (hstreams : SameStreams events events') {t t' : Node} (h : HandleAll peer s events t)
    (h' : HandleAll peer s events' t') : t.world.mb.routeTable = t'.world.mb.routeTable ∧
      t.world.mb.subscribers = t'.world.mb.subscribers := by
  have hplace : Function.Injective fun i ↦ some (peer i).remoteAddr :=
    (Option.some_injective _).comp hpeer
  have hview := local_holdings.view_eq hplace hstreams h h'
  constructor
  · ext r k
    exact iff_of_eq (congrArg (r ∈ ·.routes) (hview k))
  · refine ext_subscribers (fun v ↦ ?_) fun v ↦ ?_
    · ext addr
      rw [← mem_vnis, ← mem_vnis, hview]
    · have hmem := hstreams.mem_iff
      have hblank := blank_runAll_iff h v
      have hblank' := blank_runAll_iff h' v
      simp only [hmem] at hblank
      exact hblank.trans hblank'.symm

theorem exists_handleAll (peer : ι → Peer) (s : Node) (events : List (ι × Message)) :
    ∃ t, HandleAll peer s events t := by
  induction events generalizing s with
  | nil => exact ⟨s, .nil s⟩
  | cons e events ih =>
    obtain ⟨s', hstep⟩ := exists_handles (peer e.1) e.2 s
    obtain ⟨t, hrest⟩ := ih s'
    exact ⟨t, .cons hstep hrest⟩

/-- What belongs to other peers, or to this node, is as before. -/
structure OthersKept (addr : SocketAddr) (s s' : Node) : Prop where
  routes : ∀ r, ∀ k ≠ some addr,
    k ∈ s'.world.mb.routeTable.sources r ↔ k ∈ s.world.mb.routeTable.sources r
  subscribers : ∀ v, ∀ addr' ≠ addr,
    addr' ∈ valueAt s'.world.mb.subscribers v ↔ addr' ∈ valueAt s.world.mb.subscribers v

theorem Handles.othersKept (h : Handles self m s s') : OthersKept self.remoteAddr s s' where
  routes r k hk := iff_of_eq (congrArg (r ∈ ·.routes) (holdings_other h hk))
  subscribers v addr' hne := by
    have hk : some addr' ≠ some self.remoteAddr := fun heq ↦ hne (Option.some.inj heq)
    rw [← mem_vnis, ← mem_vnis, holdings_other h hk]

/-- A message changes nothing but what its sender owns, and so the streams of distinct
peers commute. -/
theorem streams_commute [DecidableEq ι] (hpeer : Function.Injective fun i ↦ (peer i).remoteAddr) :
    (∀ (self : Peer) m s s', Handles self m s s' → OthersKept self.remoteAddr s s') ∧
    (∀ s events, ∃ t, HandleAll peer s events t) ∧
    ∀ s events events' t t', SameStreams events events' →
      HandleAll peer s events t → HandleAll peer s events' t' →
        t.world.mb.routeTable = t'.world.mb.routeTable ∧
        t.world.mb.subscribers = t'.world.mb.subscribers :=
  ⟨fun _ _ _ _ ↦ Handles.othersKept, exists_handleAll peer,
    fun _ _ _ _ _ hstreams h h' ↦ tables_eq hpeer hstreams h h'⟩

theorem streams_commute_sample :
    let peer : Fin 2 → Peer := fun i ↦ Sample.peer i .incoming
    (Function.Injective fun i ↦ (peer i).remoteAddr) ∧
    (∀ (self : Peer) m s s', Handles self m s s' → OthersKept self.remoteAddr s s') ∧
    (∀ s events, ∃ t, HandleAll peer s events t) ∧
    ∀ s events events' t t', SameStreams events events' →
      HandleAll peer s events t → HandleAll peer s events' t' →
        t.world.mb.routeTable = t'.world.mb.routeTable ∧
        t.world.mb.subscribers = t'.world.mb.subscribers := by
  have hpeer : ∀ i j : Fin 2, (Sample.peer i .incoming).remoteAddr =
      (Sample.peer j .incoming).remoteAddr → i = j := by decide
  exact ⟨fun i j ↦ hpeer i j, streams_commute fun i j ↦ hpeer i j⟩

end MetalBond.Ownership
