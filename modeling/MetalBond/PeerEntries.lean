import MetalBond.Async.Journal
import MetalBond.ClientSetUp
import MetalBond.Ownership

namespace MetalBond.PeerEntries

open Async Task Collections HashMap Peer
open Losses (dropReceiver)
open Ownership (Holdings holdings)
open RemoteRole (Elsewhere)

@[ext] structure Entry where
  holdings : Holdings
  recorded : Finset Vni
  state : ConnectionState

def entry (p : Peer) (w : World) : Entry where
  holdings := holdings (some p.remoteAddr) ⟨w, ⟨[], [], false⟩⟩
  recorded := (w.cell p.id).subscribedVnisRemote
  state := (w.cell p.id).state

def hear (p : Peer) (h : Holdings) : GeneratedMessage → Holdings
  | .subscribe sub => h.handle p (.subscribe sub)
  | .unsubscribe unsub => h.handle p (.unsubscribe unsub)
  | .update msg => h.handle p (.update msg)
  | .hello _ | .keepalive => h

namespace Entry

variable (e : Entry)

/-- The two records of the VNIs say the same. -/
def Agree : Prop := ∀ vni, vni ∈ e.recorded ↔ vni ∈ e.holdings.vnis

def withRoutes (routes : Set Route) : Entry :=
  { e with holdings := { e.holdings with routes := routes } }

def withVnis (vnis : Set Vni) : Entry := { e with holdings := { e.holdings with vnis := vnis } }

/-- A connection that leaves `Established` leaves nothing behind. -/
def enter (newState : ConnectionState) : Entry :=
  if e.state = .established ∧ newState ≠ .established
  then ⟨{ e.holdings with routes := ∅, vnis := ∅ }, ∅, newState⟩
  else { e with state := newState }

theorem enter_of_eq {newState : ConnectionState} (h : e.state = newState) :
    e.enter newState = e := by
  subst h
  exact if_neg fun h ↦ h.2 h.1

theorem enter_of_ne {newState : ConnectionState} (h : e.state ≠ .established) :
    e.enter newState = { e with state := newState } := if_neg fun h' ↦ h h'.1

@[simp] theorem state_enter (newState : ConnectionState) : (e.enter newState).state = newState := by
  unfold enter
  split <;> rfl

variable {e}

theorem Agree.enter (h : e.Agree) (newState : ConnectionState) : (e.enter newState).Agree := by
  unfold Entry.enter
  split
  · exact fun vni ↦ by simp
  · exact h

end Entry

section Same

variable {p q : Peer} {s s' : Node}

theorem same_of (hroutes : ∀ r, some p.remoteAddr ∈ s'.world.mb.routeTable.sources r ↔
      some p.remoteAddr ∈ s.world.mb.routeTable.sources r)
    (hsubs : ∀ vni, p.remoteAddr ∈ valueAt s'.world.mb.subscribers vni ↔
      p.remoteAddr ∈ valueAt s.world.mb.subscribers vni)
    (hlistens : s'.world.mb.mySubscriptions = s.world.mb.mySubscriptions)
    (hrecorded : (p.cellOf s').subscribedVnisRemote = (p.cellOf s).subscribedVnisRemote)
    (hstate : (p.cellOf s').state = (p.cellOf s).state) : Same (entry p) s s' := by
  refine Entry.ext (Holdings.ext (Set.ext hroutes) (Set.ext fun vni ↦ ?_) hlistens) hrecorded hstate
  refine (@Ownership.mem_vnis ⟨s'.world, _⟩ p.remoteAddr vni).trans ?_
  exact (hsubs vni).trans (@Ownership.mem_vnis ⟨s.world, _⟩ p.remoteAddr vni).symm

theorem same_of_mb (hmb : s'.world.mb = s.world.mb)
    (hrecorded : (p.cellOf s').subscribedVnisRemote = (p.cellOf s).subscribedVnisRemote)
    (hstate : (p.cellOf s').state = (p.cellOf s).state) : Same (entry p) s s' :=
  same_of (fun _ ↦ by rw [hmb]) (fun _ ↦ by rw [hmb]) (by rw [hmb]) hrecorded hstate

theorem same_of_alike (h : Alike s s') : Same (entry p) s s' :=
  same_of_mb h.mb (h.link p.id).2.2 (h.link p.id).2.1

theorem same_sent (s : Node) (msg : GeneratedMessage) : Same (entry p) s (q.sent s msg) :=
  same_of_alike (q.alike_sent s msg)

theorem same_takeOutgoing (s : Node) :
    Same (entry p) s { s with world := q.takeOutgoing s.world } :=
  same_of_alike (q.received_takeOutgoing s).2

theorem same_modifyCell (s : Node) {f : PeerCell → PeerCell}
    (hf : ∀ c, (f c).subscribedVnisRemote = c.subscribedVnisRemote ∧ (f c).state = c.state) :
    Same (entry p) s { s with world := s.world.modifyCell q.id f } := by
  by_cases hid : p.id = q.id
  · refine same_of_mb rfl ?_ ?_
    · simp only [cellOf, hid, World.modifyCell_cell, (hf _).1]
    · simp only [cellOf, hid, World.modifyCell_cell, (hf _).2]
  · refine same_of_mb rfl ?_ ?_ <;>
      simp only [cellOf, World.modifyCell_cell_of_ne _ hid]

theorem same_insertPeer : Confined (Same (entry p)) (insertPeer q) :=
  .writing fun _ ↦ same_of (fun _ ↦ .rfl) (fun _ ↦ .rfl) rfl rfl rfl

theorem same_disconnect : Confined (Same (entry p)) (do
    modify (dropReceiver q)
    erasePeer q.remoteAddr : Code Unit) :=
  .bind (.modify fun s ↦ same_modifyCell s fun _ ↦ ⟨rfl, rfl⟩) fun _ ↦
    .writing fun _ ↦ same_of (fun _ ↦ .rfl) (fun _ ↦ .rfl) rfl rfl rfl

theorem acts_same (hid : p.id ≠ q.id) (haddr : q.remoteAddr ≠ p.remoteAddr) :
    q.Acts (Same (entry p)) := by
  have hall := ((acts_spares haddr).and RemoteRole.acts_elsewhere).and (ClientSetUp.acts_same q)
  refine hall.mono fun s s' ⟨⟨hspares, helsewhere⟩, hwanted⟩ ↦ ?_
  have hcell : p.cellOf s' = p.cellOf s := helsewhere.2 p.id hid
  have hlistens := congrArg ClientSetUp.Wanted.subscriptions hwanted
  exact same_of hspares.routes hspares.subscribers hlistens (by rw [hcell]) (by rw [hcell])

theorem same_distribute (ord : HashOrder) (u : InternalUpdate) :
    Confined (Same (entry p)) (distribute ord u) :=
  confined_distribute (R := Same (entry p)) (fun _ ↦ rfl) (fun _ s msg ↦ same_sent s msg) ord

theorem same_announceRoute (vni : Vni) (dest : Destination) (nh : NextHop) :
    Confined (Same (entry p)) (announceRoute vni dest nh) :=
  confined_announceRoute (fun _ ↦ same_of (fun _ ↦ .rfl) (fun _ ↦ .rfl) rfl rfl rfl) fun _ ↦ rfl

theorem same_withdrawRoute (vni : Vni) (dest : Destination) (nh : NextHop) :
    Confined (Same (entry p)) (withdrawRoute vni dest nh) := by
  refine confined_withdrawRoute (fun s ↦ ?_) fun _ ↦ rfl
  unfold removeAnnouncement
  split
  · rfl
  · exact same_of (fun _ ↦ .rfl) (fun _ ↦ .rfl) rfl rfl rfl

theorem same_addPeer (parse : String → Option SocketAddr) (serverAddr : String) :
    Confined (Same (entry p)) (addPeer parse serverAddr) :=
  confined_addPeer parse (fun _ _ ↦ same_of (fun _ ↦ .rfl) (fun _ ↦ .rfl) rfl rfl rfl) serverAddr

theorem same_removePeer (parse : String → Option SocketAddr) (ord : HashOrder) {addrStr : String}
    (haddr : parse addrStr ≠ some p.remoteAddr) :
    Confined (Same (entry p)) (removePeer parse ord addrStr) := by
  have hremovals : ∀ source routes, Confined (Same (entry p)) (sendRemovals source routes) := by
    intro source routes
    induction routes with
    | nil => exact .ret ()
    | cons r rest ih => exact .bind (.sendOn fun _ ↦ rfl) fun _ ↦ ih
  unfold removePeer
  split
  · exact .ret _
  · next addr hparse =>
    have hne : some p.remoteAddr ≠ some addr := fun h ↦ haddr (hparse.trans h.symm)
    refine .bind (.acquire ..) fun _ ↦ .bind (.modify fun s ↦ ?_) fun _ ↦ ?_
    · unfold abortManager
      split
      · rfl
      · exact same_of (fun _ ↦ .rfl) (fun _ ↦ .rfl) rfl rfl rfl
    refine .bind (.modify fun s ↦ ?_) fun _ ↦ .bind (.update fun s ↦ ?_) fun removed ↦ ?_
    · unfold shutdownPeer
      split
      · rfl
      · exact same_modifyCell s fun _ ↦ ⟨rfl, rfl⟩
    · refine same_of (fun r ↦ ?_) (fun _ ↦ .rfl) rfl rfl rfl
      change some p.remoteAddr ∈ (s.world.mb.routeTable.dropPeer addr).sources r ↔ _
      rw [RouteTable.sources_dropPeer]
      exact Finset.mem_erase.trans (and_iff_right hne)
    · exact .bind (hremovals addr removed) fun _ ↦ .bind (.release ..) fun _ ↦ .ret _

end Same

section Own

variable {p : Peer} {e : Entry} (ord : HashOrder)

/-- The peer's own task makes of its entry what `Post` says, wherever the others are. -/
abbrev Makes (p : Peer) {α : Type} (Post : Entry → α → Prop) (t : Code α) (e : Entry) : Prop :=
  Follows (owner (entry p)) Post t e

theorem follows_same {α : Type} {t : Code α} (h : Confined (Same (entry p)) t) :
    Makes p (fun e' _ ↦ e' = e) t e := quiet_owner.of_confined h

theorem follows_writes {α : Type} {e' : Entry} {f : World → α × World}
    (h : ∀ w, entry p w = e → entry p (f w).2 = e') :
    Makes p (fun e'' _ ↦ e'' = e') (update f) e :=
  (follows_owner_update (Q := fun _ ↦ True) fun w hw ↦ ⟨h w hw, trivial⟩).mono fun _ _ h ↦ h.1

theorem entry_modifyCell (w : World) (f : PeerCell → PeerCell) :
    entry p (w.modifyCell p.id f) =
      ⟨(entry p w).holdings, (f (w.cell p.id)).subscribedVnisRemote, (f (w.cell p.id)).state⟩ := by
  rw [entry, World.modifyCell_cell]
  rfl

theorem entry_withRoutes {t : RouteTable} {routes : Set Route} (w : World)
    (h : ∀ r, some p.remoteAddr ∈ t.sources r ↔ r ∈ routes) :
    entry p (w.modifyMb fun mb ↦ { mb with routeTable := t }) = (entry p w).withRoutes routes :=
  Entry.ext (Holdings.ext (Set.ext h) rfl rfl) rfl rfl

theorem entry_withVnis {subscribers : HashMap Vni (Finset SocketAddr)} {vnis : Set Vni} (w : World)
    (h : ∀ vni, p.remoteAddr ∈ valueAt subscribers vni ↔ vni ∈ vnis) :
    entry p (w.modifyMb fun mb ↦ { mb with subscribers := subscribers }) =
      (entry p w).withVnis vnis := by
  refine Entry.ext (Holdings.ext rfl (Set.ext fun vni ↦ ?_) rfl) rfl rfl
  exact (@Ownership.mem_vnis ⟨w.modifyMb fun mb ↦ { mb with subscribers := subscribers }, _⟩
    p.remoteAddr vni).trans (h vni)

theorem mem_vnis_entry {w : World} {vni : Vni} :
    vni ∈ (entry p w).holdings.vnis ↔ p.remoteAddr ∈ valueAt w.mb.subscribers vni :=
  @Ownership.mem_vnis ⟨w, _⟩ p.remoteAddr vni

theorem entry_applyUpdate (w : World) (action : UpdateAction) (vni : Vni) (dest : Destination)
    (nh : NextHop) : entry p (applyUpdate action vni dest nh (some p.remoteAddr) w).2 =
      (entry p w).withRoutes (match action with
        | .add => insert (vni, dest, nh) (entry p w).holdings.routes
        | .remove => (entry p w).holdings.routes \ {(vni, dest, nh)}) := by
  obtain ⟨t, ht⟩ := @routesOnly_applyUpdate vni dest nh (some p.remoteAddr) w action
  have hsources (r : Route) := @sources_applyUpdate r vni dest nh (some p.remoteAddr) w action
  rw [ht] at hsources ⊢
  refine entry_withRoutes w fun r ↦ ?_
  rw [show t.sources r = _ from hsources r]
  by_cases hr : r = (vni, dest, nh)
  · cases action <;> simp [hr]
  · cases action <;> simp [hr, entry, holdings]

theorem follows_getState :
    Makes p (fun e' st ↦ e' = e ∧ st = e.state) p.getState e :=
  follows_owner_reading fun _ hw ↦ congrArg Entry.state hw

theorem same_initialSync : Confined (Same (entry p)) (p.initialSync ord) :=
  confined_initialSync ord p (fun msg ↦ .update fun s ↦ same_sent s msg)
    (.modify fun s ↦ same_modifyCell s fun _ ↦ ⟨rfl, rfl⟩)

theorem follows_dropSubscriptions (hagree : e.Agree) : Makes p
    (fun e' _ ↦ e' = { e.withVnis ∅ with recorded := ∅ }) p.dropSubscriptions e := by
  have hlook : Makes p (fun e' subs ↦ e' = e ∧ subs = e.recorded)
      (gets fun w : World ↦ (w.cell p.id).subscribedVnisRemote : Code (Finset Vni)) e :=
    follows_owner_gets fun _ hw ↦ congrArg Entry.recorded hw
  refine (follows_same (.acquire ..)).andThen fun _ ↦ hlook.bind fun e' subs h ↦ ?_
  obtain ⟨rfl, rfl⟩ := h
  split
  · next hempty =>
    refine (follows_same (.release ..)).mono fun e'' _ heq ↦ ?_
    rw [heq]
    refine Entry.ext (Holdings.ext rfl (Set.ext fun vni ↦ ?_) rfl) hempty rfl
    rw [← hagree, hempty]
    simp [Entry.withVnis]
  · have hforget : Makes p (fun e'' _ ↦ e'' = e'.withVnis ∅)
        (modify fun w : World ↦ w.modifyMb fun mb ↦ { mb with
          subscribers := forgetSubscriber p.remoteAddr e'.recorded mb.subscribers } : Code Unit)
        e' := by
      refine follows_owner (fun w hw ↦ ?_) rfl
      refine (entry_withVnis w fun vni ↦ ?_).trans (by rw [hw])
      rw [valueAt_forgetSubscriber]
      split
      · simp
      · next hnot =>
        rw [hagree vni, ← hw, mem_vnis_entry] at hnot
        simp [hnot]
    have hclear : Makes p
        (fun e'' _ ↦ e'' = { e'.withVnis ∅ with recorded := ∅ })
        (modify fun w : World ↦ w.modifyCell p.id fun c ↦
          { c with subscribedVnisRemote := ∅ } : Code Unit) (e'.withVnis ∅) := by
      refine follows_owner (fun w hw ↦ ?_) rfl
      rw [entry_modifyCell, hw]
      exact congrArg (Entry.mk _ _) (congrArg Entry.state hw)
    refine (follows_same (.acquire ..)).andThen fun _ ↦ hforget.andThen fun _ ↦ ?_
    exact hclear.andThen fun _ ↦ (follows_same (.release ..)).andThen fun _ ↦
      follows_same (.release ..)

theorem follows_cleanupPeerState (hagree : e.Agree) : Makes p
    (fun e' _ ↦ e' = ⟨{ e.holdings with routes := ∅, vnis := ∅ }, ∅, e.state⟩)
    (p.cleanupPeerState ord) e := by
  have hremovals (routes : List Route) :
      Confined (Same (entry p)) (sendRemovals p.remoteAddr routes) := by
    induction routes with
    | nil => exact .ret ()
    | cons r rest ih => exact .bind (.sendOn fun _ ↦ rfl) fun _ ↦ ih
  have hremove : Makes p (fun e' _ ↦ e' = e.withRoutes ∅)
      (removeRoutesFromPeer ord p.remoteAddr) e := by
    refine follows_writes fun w hw ↦ ?_
    refine (entry_withRoutes w fun r ↦ ?_).trans (by rw [hw])
    change some p.remoteAddr ∈ (w.mb.routeTable.dropPeer p.remoteAddr).sources r ↔ _
    rw [RouteTable.sources_dropPeer]
    simp
  refine (follows_same (.acquire ..)).andThen fun _ ↦ hremove.andThen fun removed ↦ ?_
  refine (follows_same (hremovals removed)).andThen fun _ ↦ ?_
  refine (follows_dropSubscriptions (e := e.withRoutes ∅) hagree).andThen fun _ ↦ ?_
  exact follows_same (.release ..)

theorem follows_setState (hagree : e.Agree) (newState : ConnectionState) :
    Makes p (fun e' _ ↦ e' = e.enter newState) (p.setState ord newState) e := by
  have hold : Makes p (fun e' old ↦ e' = e ∧ old = e.state)
      (gets fun w : World ↦ (w.cell p.id).state : Code ConnectionState) e :=
    follows_owner_gets fun _ hw ↦ congrArg Entry.state hw
  refine (follows_same (.acquire ..)).andThen fun _ ↦ hold.bind fun e' old h ↦ ?_
  obtain ⟨rfl, rfl⟩ := h
  split
  · next heq =>
    rw [e'.enter_of_eq heq]
    exact follows_same (.release ..)
  · next hne =>
    have hstate : Makes p (fun e'' _ ↦ e'' = { e' with state := newState })
        (modify fun w : World ↦ w.modifyCell p.id fun c ↦ { c with state := newState } : Code Unit)
        e' := by
      refine follows_owner (fun w hw ↦ ?_) rfl
      rw [entry_modifyCell, hw]
      exact congrArg (Entry.mk _ · _) (congrArg Entry.recorded hw)
    refine hstate.andThen fun _ ↦ (follows_same (.release ..)).andThen fun _ ↦ ?_
    split
    · next h =>
      rw [e'.enter_of_ne h.2]
      exact follows_same (same_initialSync ord)
    · next hup =>
      split
      · next h =>
        rw [Entry.enter, if_pos ⟨h.2, h.1⟩]
        exact follows_cleanupPeerState ord hagree
      · next hdown =>
        have hnot : e'.state ≠ .established := fun h ↦ hdown ⟨fun h' ↦ hne (h.trans h'.symm), h⟩
        rw [e'.enter_of_ne hnot]
        exact .ret rfl

/-- For any part of the data in which the routes of the peer stand. -/
theorem follows_processUpdate_within {V : Type} {view : World → V} (put : Set Route → V)
    (h : Holdings) (msg : Pb.Update)
    (hlistens : ∀ w, view w = put h.routes → w.mb.mySubscriptions = h.listens)
    (hput : ∀ w action vni dest nh, view w = put h.routes →
      view (applyUpdate action vni dest nh (some p.remoteAddr) w).2 = put (match action with
        | .add => insert (vni, dest, nh) h.routes
        | .remove => h.routes \ {(vni, dest, nh)})) :
    Follows (owner view) (fun v _ ↦ v = put (h.routesAfter p msg)) (p.processUpdate msg)
      (put h.routes) := by
  unfold processUpdate Holdings.routesAfter
  cases parseUpdate msg with
  | error x => exact .ret rfl
  | ok x =>
    obtain ⟨action, vni, dest, nh⟩ := x
    have hlook : Follows (owner view)
        (fun v flag ↦ v = put h.routes ∧ flag = decide (vni ∈ h.listens))
        (reading .metalbondState fun w ↦ decide (vni ∈ w.mb.mySubscriptions) : Code Bool)
        (put h.routes) :=
      follows_owner_reading fun w hw ↦ by rw [hlistens w hw]
    refine hlook.bind fun v flag hv ↦ ?_
    obtain ⟨rfl, rfl⟩ := hv
    by_cases hig : vni ∉ h.listens ∧ p.direction = .outgoing
    · have hcond : (!decide (vni ∈ h.listens) &&
          decide (p.direction = .outgoing)) = true := by simpa using hig
      rw [if_pos hcond]
      simp only [if_pos hig]
      exact .ret rfl
    · have hcond : ¬ (!decide (vni ∈ h.listens) &&
          decide (p.direction = .outgoing)) = true := by simpa using hig
      rw [if_neg hcond]
      simp only [if_neg hig]
      have hquiet (v : V) := @quiet_owner V Lock World InternalUpdate view v
      have hstore : Follows (owner view) (fun v _ ↦ v = put (match action with
            | .add => insert (vni, dest, nh) h.routes
            | .remove => h.routes \ {(vni, dest, nh)}))
          (update (applyUpdate action vni dest nh (some p.remoteAddr)) : Code (Except Error ℕ))
          (put h.routes) :=
        .update fun s hs ↦ ⟨_, hput s.world action vni dest nh hs, rfl⟩
      refine ((hquiet _).acquires trivial).andThen fun _ ↦ hstore.andThen fun remaining ↦ ?_
      have hsend : Confined (Same view)
          (sendChange action vni dest nh (some p.remoteAddr) remaining) :=
        confined_sendChange (fun _ _ ↦ rfl) action remaining
      refine ((hquiet _).of_confined hsend).andThen fun _ ↦ ?_
      exact ((hquiet _).releases trivial).andThen fun _ ↦ .ret rfl

theorem follows_processUpdate (msg : Pb.Update) : Makes p
    (fun e' _ ↦ e' = e.withRoutes (e.holdings.routesAfter p msg)) (p.processUpdate msg) e := by
  refine follows_processUpdate_within e.withRoutes e.holdings msg (fun w hw ↦ ?_) ?_
  · exact congrArg (fun e : Entry ↦ e.holdings.listens) hw
  · intro w action vni dest nh hw
    rw [entry_applyUpdate, hw]
    rfl

theorem confined_sendExisting {R : Node → Node → Prop} [Std.Refl R]
    (hsent : ∀ s msg, R s (p.sent s msg))
    (hsignal : ∀ s : Node, R s { s with world := s.world.modifyCell p.id fun c ↦
      { c with shutdownSignal := true } })
    (vni : Vni) (routes : List (Destination × NextHop × Finset PeerKey)) :
    Confined R (p.sendExisting vni routes) := by
  induction routes with
  | nil => exact .ret _
  | cons x rest ih =>
    refine .bind (.reading ..) fun isRemoteServer ↦ ?_
    split
    · refine .bind (.update fun s ↦ hsent s _) fun r ↦ ?_
      cases r with
      | ok _ => exact ih
      | error x => exact .bind (.modify hsignal) fun _ ↦ .ret _
    · exact ih

theorem follows_record {recorded : Finset Vni} (f : Finset Vni → Finset Vni)
    (hf : f e.recorded = recorded) : Makes p
    (fun e' _ ↦ e' = { e with recorded := recorded })
    (writing (.subscribedVnisRemote p.id) fun w : World ↦ ((), w.modifyCell p.id fun c ↦
      { c with subscribedVnisRemote := f c.subscribedVnisRemote })) e := by
  refine follows_owner_writing (fun w hw ↦ ?_) fun _ ↦ rfl
  rw [entry_modifyCell, hw, ← hf, ← hw]
  rfl

theorem follows_processSubscribe (sub : Pb.Subscription) : Makes p
    (fun e' _ ↦ e' = { e.withVnis (insert sub.vni e.holdings.vnis) with
      recorded := insert sub.vni e.recorded }) (p.processSubscribe ord sub) e := by
  have hregister : Makes p
      (fun e' _ ↦ e' = e.withVnis (insert sub.vni e.holdings.vnis))
      (writing .metalbondState (addSubscriber p.remoteAddr sub.vni)) e := by
    refine follows_owner_writing (fun w hw ↦ ?_) fun _ ↦ rfl
    refine (entry_withVnis w fun vni ↦ ?_).trans (by rw [hw])
    rw [valueAt_insert, ← hw, Set.mem_insert_iff, mem_vnis_entry]
    split
    · next hv => simp [hv]
    · next hv => simp [hv]
  refine hregister.andThen fun wasInserted ↦ ?_
  refine (follows_record (insert sub.vni) rfl).andThen fun _ ↦ ?_
  cases wasInserted with
  | true =>
    refine follows_same (.bind (.reading ..) fun routes ↦ ?_)
    exact confined_sendExisting same_sent (fun s ↦ same_modifyCell s fun _ ↦ ⟨rfl, rfl⟩) sub.vni _
  | false => exact .ret rfl

theorem follows_removeLearned (vni : Vni) (routes : List (Destination × NextHop × Finset PeerKey)) :
    Makes p (fun e' _ ↦ e' = e.withRoutes
      (e.holdings.routes \ {r | r.1 = vni ∧ r.2 ∈ p.ownRoutes routes}))
      (p.removeLearned vni routes) e := by
  induction routes generalizing e with
  | nil =>
    refine .ret (Entry.ext (Holdings.ext ?_ rfl rfl) rfl rfl)
    simp [ownRoutes, Entry.withRoutes]
  | cons x rest ih =>
    obtain ⟨dest, nh, sources⟩ := x
    unfold removeLearned
    by_cases hmem : some p.remoteAddr ∈ sources
    · rw [if_pos hmem]
      have hremove : Makes p
          (fun e' _ ↦ e' = e.withRoutes (e.holdings.routes \ {(vni, dest, nh)}))
          (update (removeNextHop vni dest nh (some p.remoteAddr))) e := by
        refine follows_writes fun w hw ↦ ?_
        rw [← hw]
        exact entry_applyUpdate w .remove vni dest nh
      have hsend (n : Except Error ℕ) : Confined (Same (entry p))
          (sendIfGone ⟨.remove, vni, dest, nh, some p.remoteAddr⟩ n) := by
        unfold sendIfGone
        split
        · exact .bind (.sendOn fun _ ↦ rfl) fun _ ↦ .ret ()
        · exact .ret ()
        · exact .ret ()
      refine (follows_same (.acquire ..)).andThen fun _ ↦ hremove.andThen fun n ↦ ?_
      refine (follows_same (hsend n)).andThen fun _ ↦ ?_
      refine (follows_same (.release ..)).andThen fun _ ↦ ?_
      refine ih.mono fun e' _ heq ↦ heq.trans ?_
      refine Entry.ext (Holdings.ext (Set.ext fun r ↦ ?_) rfl rfl) rfl rfl
      obtain ⟨v, d, n⟩ := r
      simp only [Entry.withRoutes, ownRoutes, hmem, decide_true, List.filter_cons_of_pos,
        List.map_cons, List.mem_cons, Set.mem_sdiff, Set.mem_singleton_iff, Set.mem_ofPred_eq,
        Prod.mk.injEq]
      tauto
    · rw [if_neg hmem]
      refine ih.mono fun e' _ heq ↦ heq.trans ?_
      simp [ownRoutes, hmem]

theorem exists_removeSubscriber (addr : SocketAddr) (vni : Vni) (w : World) : ∃ subs,
    (removeSubscriber addr vni w).2 = w.modifyMb fun mb ↦ { mb with subscribers := subs } := by
  unfold removeSubscriber
  split
  · exact ⟨w.mb.subscribers, rfl⟩
  · exact ⟨_, rfl⟩

theorem follows_processUnsubscribe (unsub : Pb.Subscription) : Makes p
    (fun e' _ ↦ e' = ⟨e.holdings.unsubscribe unsub.vni, e.recorded.erase unsub.vni, e.state⟩)
    (p.processUnsubscribe ord unsub) e := by
  have hforget : Makes p (fun e' removed ↦ e' = e.withVnis (e.holdings.vnis \ {unsub.vni}) ∧
      (removed = true ↔ unsub.vni ∈ e.holdings.vnis))
      (update (removeSubscriber p.remoteAddr unsub.vni)) e := by
    refine follows_owner_update fun w hw ↦ ⟨?_, ?_⟩
    · obtain ⟨subs, hsubs⟩ := exists_removeSubscriber p.remoteAddr unsub.vni w
      have hvalue (vni : Vni) := subscribers_removeSubscriber p.remoteAddr unsub.vni vni w
      rw [hsubs] at hvalue ⊢
      refine (entry_withVnis w fun vni ↦ ?_).trans (by rw [hw])
      rw [show valueAt subs vni = _ from hvalue vni, ← hw, Set.mem_sdiff, mem_vnis_entry,
        Set.mem_singleton_iff]
      split
      · next hv => simp [hv]
      · next hv => simp [hv]
    · rw [← hw, mem_vnis_entry]
      unfold removeSubscriber valueAt
      cases w.mb.subscribers.lookup unsub.vni <;> simp
  have hregister : Makes p (fun e' removed ↦ e' = e.withVnis (e.holdings.vnis \ {unsub.vni}) ∧
      (removed = true ↔ unsub.vni ∈ e.holdings.vnis))
      (writing .metalbondState (removeSubscriber p.remoteAddr unsub.vni)) e := by
    refine (follows_same (.acquire ..)).andThen fun _ ↦ hforget.bind fun e' removed h ↦ ?_
    exact (follows_same (.release ..)).andThen fun _ ↦ .ret h
  refine hregister.bind fun e₁ removed h ↦ ?_
  obtain ⟨rfl, hremoved⟩ := h
  refine (follows_record (·.erase unsub.vni) rfl).andThen fun _ ↦ ?_
  cases removed with
  | true =>
    let unlisted : Entry := ⟨{ e.holdings with vnis := e.holdings.vnis \ {unsub.vni} },
      e.recorded.erase unsub.vni, e.state⟩
    have hlook : Makes p (fun e' (dests : DestinationMap) ↦ e' = unlisted ∧
          ∀ x, x ∈ p.ownRoutes (routeList ord dests) ↔ (unsub.vni, x) ∈ e.holdings.routes)
        (reading .metalbondState fun w : World ↦
          w.mb.routeTable.getDestinationsByVniWithPeer unsub.vni) unlisted := by
      refine follows_owner_reading fun w hw x ↦ ?_
      have hroutes := congrArg (fun e : Entry ↦ (unsub.vni, x) ∈ e.holdings.routes) hw
      exact (p.mem_ownRoutes ord).trans (iff_of_eq hroutes)
    refine hlook.bind fun e₂ dests h ↦ ?_
    obtain ⟨rfl, hown⟩ := h
    refine (follows_removeLearned unsub.vni _).andThen fun _ ↦ .ret ?_
    refine Entry.ext (Holdings.ext (Set.ext fun r ↦ ?_) rfl rfl) rfl rfl
    obtain ⟨v, x⟩ := r
    have hlisted := hremoved.mp rfl
    simp only [Entry.withRoutes, Holdings.unsubscribe, Set.mem_sdiff, Set.mem_ofPred_eq, hown,
      hlisted, and_true]
    refine and_congr_right fun hr ↦ not_congr (and_iff_left_of_imp fun hv ↦ ?_)
    rwa [hv] at hr
  | false =>
    refine .ret (Entry.ext (Holdings.ext (Set.ext fun r ↦ ?_) rfl rfl) rfl rfl)
    have hnot : unsub.vni ∉ e.holdings.vnis := fun h ↦ Bool.false_ne_true (hremoved.mpr h)
    simp [Entry.withVnis, Holdings.unsubscribe, hnot]

/-- The state that a message may lead to. Once established, or closed, a connection is so until it
is closed. -/
def Advances (st st' : ConnectionState) : Prop :=
  st' = st ∨ st ≠ .established ∧ st ≠ .closed ∧ st' ≠ .closed

/-- A round has made of the entry what the message that it handled, if any, makes of it. -/
structure Hears (p : Peer) (msg : Option GeneratedMessage) (e e' : Entry) : Prop where
  holdings : e'.holdings = msg.elim e.holdings (hear p e.holdings)
  agree : e'.Agree
  state : Advances e.state e'.state

structure Greets (e : Entry) (e' : Entry) (r : Except Error Unit) : Prop where
  holdings : e'.holdings = e.holdings
  recorded : e'.recorded = e.recorded
  state : Advances e.state e'.state
  failed : ∀ x, r = .error x → e'.state = e.state

theorem greets_refl (e : Entry) (r : Except Error Unit) : Greets e e r :=
  ⟨rfl, rfl, .inl rfl, fun _ _ ↦ rfl⟩

theorem follows_enter (hagree : e.Agree) {newState : ConnectionState}
    (hup : e.state ≠ .established) (hopen : e.state ≠ .closed) (hnew : newState ≠ .closed) :
    Makes p (Greets e) (do p.setState ord newState; return .ok ()) e := by
  refine (follows_setState ord hagree newState).andThen fun _ ↦ .ret ?_
  rw [e.enter_of_ne hup]
  exact ⟨rfl, rfl, .inr ⟨hup, hopen, hnew⟩, nofun⟩

theorem follows_processHello (hagree : e.Agree) (hello : Pb.Hello) :
    Makes p (Greets e) (p.processHello ord hello) e := by
  unfold processHello
  split
  · exact .ret (greets_refl ..)
  · have hrole : Confined (Same (entry p)) (writing (.isRemoteServer p.id) fun w : World ↦
        ((), w.modifyCell p.id fun c ↦ { c with isRemoteServer := hello.isServer }) : Code Unit) :=
      .writing fun s ↦ same_modifyCell s fun _ ↦ ⟨rfl, rfl⟩
    refine (follows_same hrole).andThen fun _ ↦ follows_getState.bind fun e' st h ↦ ?_
    obtain ⟨rfl, rfl⟩ := h
    cases p.direction with
    | incoming =>
      by_cases hst : e'.state = .connecting ∨ e'.state = .helloReceived
      · have hup : e'.state ≠ .established := by rcases hst with h | h <;> simp [h]
        have hopen : e'.state ≠ .closed := by rcases hst with h | h <;> simp [h]
        have hsend : Confined (Same (entry p)) (p.sendHello true) := .update fun s ↦ same_sent s _
        simp only [hst, if_true]
        refine (follows_same hsend).andThen fun r ↦ ?_
        cases r with
        | error x => exact .ret (greets_refl ..)
        | ok _ => exact follows_enter ord hagree hup hopen nofun
      · simp only [hst, if_false]
        exact .ret (greets_refl ..)
    | outgoing =>
      by_cases hst : e'.state = .helloSent
      · have hup : e'.state ≠ .established := by simp [hst]
        have hopen : e'.state ≠ .closed := by simp [hst]
        simp only [hst, if_true]
        exact follows_enter ord hagree hup hopen nofun
      · simp only [hst, if_false]
        exact .ret (greets_refl ..)

theorem follows_processKeepalive (hagree : e.Agree) :
    Makes p (Greets e) (p.processKeepalive ord) e := by
  refine follows_getState.bind fun e' st h ↦ ?_
  obtain ⟨rfl, rfl⟩ := h
  cases p.direction with
  | incoming =>
    by_cases hsent : e'.state = .helloSent
    · have hup : e'.state ≠ .established := by simp [hsent]
      have hopen : e'.state ≠ .closed := by simp [hsent]
      simp only [hsent, if_true]
      exact follows_enter ord hagree hup hopen nofun
    · by_cases hst : e'.state = .established
      · have hsend : Confined (Same (entry p)) p.sendKeepalive := .update fun s ↦ same_sent s _
        simp only [hst, if_true]
        exact (follows_same hsend).andThen fun r ↦ .ret (greets_refl ..)
      · simp only [hsent, hst, if_false]
        exact .ret (greets_refl ..)
  | outgoing =>
    by_cases hreceived : e'.state = .helloReceived
    · have hup : e'.state ≠ .established := by simp [hreceived]
      have hopen : e'.state ≠ .closed := by simp [hreceived]
      simp only [hreceived, if_true]
      exact follows_enter ord hagree hup hopen nofun
    · simp only [hreceived, if_false]
      split <;> exact .ret (greets_refl ..)

theorem Greets.hears {e' : Entry} {r : Except Error Unit} {msg : GeneratedMessage}
    (h : Greets e e' r) (hagree : e.Agree) (hmsg : hear p e.holdings msg = e.holdings) :
    Hears p (some msg) e e' where
  holdings := h.holdings.trans hmsg.symm
  agree vni := by
    rw [h.recorded, h.holdings]
    exact hagree vni
  state := h.state

/-- The handler of a message does with the entry what the message says. -/
theorem follows_process (hagree : e.Agree) (msg : GeneratedMessage) : Makes p
    (fun e' r ↦ Hears p (some msg) e e' ∧ ∀ x, r = .error x → e'.state = e.state)
    (p.process ord msg) e := by
  cases msg with
  | hello hello =>
    exact (follows_processHello ord hagree hello).mono fun e' r h ↦
      ⟨h.hears hagree rfl, h.failed⟩
  | keepalive =>
    exact (follows_processKeepalive ord hagree).mono fun e' r h ↦ ⟨h.hears hagree rfl, h.failed⟩
  | subscribe sub =>
    refine (follows_processSubscribe ord sub).mono fun e' r h ↦ ?_
    subst h
    refine ⟨⟨rfl, fun vni ↦ ?_, .inl rfl⟩, fun _ _ ↦ rfl⟩
    simp [Entry.withVnis, hagree vni]
  | unsubscribe unsub =>
    refine (follows_processUnsubscribe ord unsub).mono fun e' r h ↦ ?_
    subst h
    refine ⟨⟨rfl, fun vni ↦ ?_, .inl rfl⟩, fun _ _ ↦ rfl⟩
    simp [Holdings.unsubscribe, hagree vni, and_comm]
  | update msg =>
    refine (follows_processUpdate msg).mono fun e' r h ↦ ?_
    subst h
    exact ⟨⟨rfl, hagree, .inl rfl⟩, fun _ _ ↦ rfl⟩

/-- The connection is up after the round, or the round has closed it. -/
inductive Rounds (p : Peer) (msg : Option GeneratedMessage) (e : Entry) : Entry → Prop
  | goesOn {e' : Entry} (h : Hears p msg e e') : Rounds p msg e e'
  | closes {e' : Entry} (h : Hears p msg e e') (hstate : e'.state = e.state) :
    Rounds p msg e (e'.enter .closed)

theorem Rounds.agree {msg : Option GeneratedMessage} {e' : Entry} (h : Rounds p msg e e') :
    e'.Agree := by
  cases h with
  | goesOn h => exact h.agree
  | closes h _ => exact h.agree.enter .closed

theorem hears_none (hagree : e.Agree) : Hears p none e e := ⟨rfl, hagree, .inl rfl⟩

theorem same_triggerShutdown : Confined (Same (entry p)) p.triggerShutdown :=
  .modify fun s ↦ same_modifyCell s fun _ ↦ ⟨rfl, rfl⟩

theorem same_shutdownOnError (r : Except Error Unit) :
    Confined (Same (entry p)) (p.shutdownOnError r) := by
  cases r with
  | ok _ => exact .ret ()
  | error x => exact same_triggerShutdown

theorem same_startKeepalive (later : Instant) (t : Timers) :
    Confined (Same (entry p)) (p.startKeepalive later t) := by
  refine .bind (.reading ..) fun state ↦ ?_
  split
  · split
    · exact .ret _
    · split
      · exact .bind (.update fun s ↦ same_sent s _) fun r ↦
          .bind (same_shutdownOnError r) fun _ ↦ .ret _
      · exact .ret _
  · exact .ret _

theorem follows_closeAndTrigger {msg : Option GeneratedMessage} {e' : Entry} {next : Next}
    (h : Hears p msg e e') (hstate : e'.state = e.state) : Makes p
    (fun e'' _ ↦ Rounds p msg e e'') (do p.closeAndTrigger ord; return next : Code Next) e' := by
  refine Follows.andThen ?_ fun _ ↦ .ret (Rounds.closes h hstate)
  exact (follows_setState ord h.agree .closed).andThen fun _ ↦ follows_same same_triggerShutdown

def heardIn (r : Round) : Option GeneratedMessage :=
  match r.won with
  | .frame (.message msg) => some msg
  | _ => none

theorem follows_selectRound (hagree : e.Agree) (r : Round) (t : Timers)
    (hreset : (t.polled r.polled).reset p.config r.now ≠ none) :
    Makes p (fun e' _ ↦ Rounds p (heardIn r) e e') (p.selectRound ord r t) e := by
  have hclose (next : Next) : Makes p (fun e' _ ↦ Rounds p none e e')
      (do p.closeAndTrigger ord; return next : Code Next) e :=
    follows_closeAndTrigger ord (hears_none hagree) rfl
  have hstays {next : Next} : Makes p (fun e' _ ↦ Rounds p none e e') (.ret next) e :=
    .ret (.goesOn (hears_none hagree))
  unfold selectRound handleBranch heardIn
  cases r.won with
  | shutdown =>
    have hsignal : Confined (Same (entry p)) (modify fun w : World ↦ w.modifyCell p.id fun c ↦
        { c with shutdownSignal := false } : Code Unit) :=
      .modify fun s ↦ same_modifyCell s fun _ ↦ ⟨rfl, rfl⟩
    refine (follows_same hsignal).andThen fun _ ↦ ?_
    exact (follows_setState ord hagree .closed).andThen fun _ ↦
      .ret (.closes (hears_none hagree) rfl)
  | frame f =>
    cases f with
    | message msg =>
      unfold handleMessage
      cases htimers : (t.polled r.polled).reset p.config r.now with
      | none => exact absurd htimers hreset
      | some t =>
        refine (follows_process ord hagree msg).bind fun e' result h ↦ ?_
        cases result with
        | error x => exact follows_closeAndTrigger ord h.1 (h.2 x rfl)
        | ok _ =>
          refine (follows_same (same_startKeepalive r.later t)).mono fun e'' _ heq ↦ ?_
          exact heq ▸ .goesOn h.1
    | error => exact hclose _
    | eof => exact hclose _
  | outgoing sent =>
    have htake : Confined (Same (entry p)) (modify p.takeOutgoing : Code Unit) :=
      .modify same_takeOutgoing
    refine (follows_same htake).andThen fun _ ↦ ?_
    cases sent with
    | true => exact hstays
    | false => exact hclose _
  | tick =>
    have hsend : Confined (Same (entry p)) p.sendKeepalive := .update fun s ↦ same_sent s _
    refine follows_getState.bind fun e' st h ↦ ?_
    obtain ⟨rfl, -⟩ := h
    by_cases hdue : p.direction = .outgoing ∧ st = .established
    · rw [if_pos hdue]
      refine (follows_same hsend).andThen fun r ↦ ?_
      exact (follows_same (same_shutdownOnError r)).andThen fun _ ↦ hstays
    · rw [if_neg hdue]
      exact hstays
  | timeout => exact hclose _

theorem follows_startPeer (hagree : e.Agree) :
    Makes p (fun e' _ ↦ ∃ st, e' = e.enter st) (p.startPeer ord) e := by
  have henter (newState : ConnectionState) (b : Bool) : Makes p
      (fun e' _ ↦ ∃ st, e' = e.enter st)
      (do p.setState ord newState; return b : Code Bool) e :=
    (follows_setState ord hagree newState).andThen fun _ ↦ .ret ⟨newState, rfl⟩
  unfold startPeer
  cases p.direction with
  | outgoing =>
    have hmode : Confined (Same (entry p))
        (reading .metalbondState fun w : World ↦ w.mb.isServer : Code Bool) := .reading ..
    have hsend (isServer : Bool) : Confined (Same (entry p)) (p.sendHello isServer) :=
      .update fun s ↦ same_sent s _
    refine (follows_same hmode).andThen fun isServer ↦ ?_
    refine (follows_same (hsend isServer)).andThen fun r ↦ ?_
    cases r with
    | error x => exact henter _ _
    | ok _ => exact henter _ _
  | incoming => exact henter _ _

end Own

end MetalBond.PeerEntries
