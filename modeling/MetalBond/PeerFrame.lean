import MetalBond.Async.Frame
import MetalBond.HandlerExec

namespace MetalBond

open Async Task Collections HashMap

/-- Nothing but the table of learned routes and the channel may differ. -/
def TableOnly (s s' : Node) : Prop :=
  ∃ t, s'.world = s.world.modifyMb fun mb ↦ { mb with routeTable := t }

instance : Std.Refl TableOnly := ⟨fun s ↦ ⟨s.world.mb.routeTable, rfl⟩⟩

instance : IsTrans Node TableOnly := ⟨fun s s' s'' h h' ↦ by
  obtain ⟨t, h⟩ := h
  obtain ⟨t', h'⟩ := h'
  exact ⟨t', by rw [h', h]; rfl⟩⟩

def Forgets (addr : SocketAddr) (s s' : Node) : Prop :=
  TableOnly s s' ∧ ∀ r, some addr ∈ s'.world.mb.routeTable.sources r →
    some addr ∈ s.world.mb.routeTable.sources r

instance (addr : SocketAddr) : Std.Refl (Forgets addr) := ⟨fun s ↦ ⟨Std.Refl.refl s, fun _ h ↦ h⟩⟩

instance (addr : SocketAddr) : IsTrans Node (Forgets addr) :=
  ⟨fun _ _ _ h h' ↦ ⟨IsTrans.trans _ _ _ h.1 h'.1, fun r hr ↦ h.2 r (h'.2 r hr)⟩⟩

theorem TableOnly.mb_eq {s s' : Node} (h : TableOnly s s') :
    s'.world.mb = { s.world.mb with routeTable := s'.world.mb.routeTable } := by
  obtain ⟨t, h⟩ := h
  rw [h]
  rfl

theorem TableOnly.cell_eq {s s' : Node} (h : TableOnly s s') : s'.world.cell = s.world.cell := by
  obtain ⟨t, h⟩ := h
  rw [h]
  rfl

theorem forgets_send (addr : SocketAddr) (s : Node) (u : InternalUpdate) :
    Forgets addr s { s with chan := (s.chan.send u).2 } :=
  ⟨⟨s.world.mb.routeTable, rfl⟩, fun _ h ↦ h⟩

namespace Peer

variable (ord : HashOrder) (self : Peer) (s : Node)

theorem ends_sendIfGone {held : List (Guard Lock)} (u : InternalUpdate) (remaining : Except Error ℕ) :
    Ends held held (sendIfGone u remaining) := by
  unfold sendIfGone
  split
  · exact .bind (.sendOn u) fun _ ↦ .ret ()
  · exact .ret ()
  · exact .ret ()

theorem ends_removeLearned (vni : Vni) (routes : List (Destination × NextHop × Finset PeerKey)) :
    Ends [] [] (self.removeLearned vni routes) := by
  induction routes with
  | nil => exact .ret ()
  | cons x rest ih =>
    unfold removeLearned
    split
    · refine .bind (.acquire rfl) fun _ ↦ .bind (.update _) fun remaining ↦ ?_
      exact .bind (ends_sendIfGone _ remaining) fun _ ↦ .bind (.release _ _) fun _ ↦ ih
    · exact ih

theorem ends_processUnsubscribe (unsub : Pb.Subscription) :
    Ends [] [] (self.processUnsubscribe ord unsub) := by
  refine .bind (.writing rfl _) fun removed ↦ .bind (.writing rfl _) fun _ ↦ ?_
  cases removed with
  | true =>
    exact .bind (.reading rfl _) fun _ ↦ .bind (ends_removeLearned _ _ _) fun _ ↦ .ret _
  | false => exact .ret _

theorem ends_sendChange {held : List (Guard Lock)} (action : UpdateAction) (vni : Vni)
    (dest : Destination) (nh : NextHop)
    (source : PeerKey) (remaining : Except Error ℕ) :
    Ends held held (sendChange action vni dest nh source remaining) := by
  unfold sendChange
  split
  · exact .ret ()
  · split
    · exact .bind (.sendOn _) fun _ ↦ .ret ()
    · split
      · exact .bind (.sendOn _) fun _ ↦ .ret ()
      · exact .ret ()

theorem ends_processUpdate (msg : Pb.Update) : Ends [] [] (self.processUpdate msg) := by
  unfold processUpdate
  split
  · exact .ret _
  · refine .bind (.reading rfl _) fun isSubscribedLocally ↦ ?_
    split
    · exact .ret _
    · refine .bind (.acquire rfl) fun _ ↦ .bind (.update _) fun remaining ↦ ?_
      exact .bind (ends_sendChange _ _ _ _ _ remaining) fun _ ↦ .bind (.release _ _) fun _ ↦ .ret _

theorem tableOnly_removeNextHop (vni : Vni) (dest : Destination) (nh : NextHop) (source : PeerKey) :
    TableOnly s { s with world := (removeNextHop vni dest nh source s.world).2 } := by
  unfold removeNextHop
  split
  · exact Std.Refl.refl s
  · exact ⟨_, rfl⟩

theorem forgets_removeNextHop (addr : SocketAddr) (vni : Vni) (dest : Destination) (nh : NextHop)
    (source : PeerKey) :
    Forgets addr s { s with world := (removeNextHop vni dest nh source s.world).2 } := by
  unfold removeNextHop
  by_cases hmem : source ∈ s.world.mb.routeTable.sources (vni, dest, nh)
  · rw [RouteTable.removeNextHop_of_mem hmem]
    refine ⟨⟨_, rfl⟩, fun r hr ↦ ?_⟩
    simp only [World.modifyMb_mb, RouteTable.sources_store] at hr
    split at hr
    · next heq =>
      rw [heq]
      exact Finset.mem_of_mem_erase hr
    · exact hr
  · obtain ⟨e, he⟩ := RouteTable.removeNextHop_of_notMem hmem
    rw [he]
    exact Std.Refl.refl s

theorem tableOnly_applyUpdate (action : UpdateAction) (vni : Vni) (dest : Destination)
    (nh : NextHop) (source : PeerKey) :
    TableOnly s { s with world := (applyUpdate action vni dest nh source s.world).2 } := by
  cases action with
  | add => exact ⟨_, rfl⟩
  | remove => exact tableOnly_removeNextHop s vni dest nh source

theorem confined_sendIfGone (addr : SocketAddr) (u : InternalUpdate)
    (remaining : Except Error ℕ) : Confined (Forgets addr) (sendIfGone u remaining) := by
  unfold sendIfGone
  split
  · exact .bind (.sendOn fun s ↦ forgets_send addr s u) fun _ ↦ .ret ()
  · exact .ret ()
  · exact .ret ()

theorem confined_removeLearned (addr : SocketAddr) (vni : Vni)
    (routes : List (Destination × NextHop × Finset PeerKey)) :
    Confined (Forgets addr) (self.removeLearned vni routes) := by
  induction routes with
  | nil => exact .ret ()
  | cons x rest ih =>
    unfold removeLearned
    split
    · refine .bind (.acquire ..) fun _ ↦ .bind (.update fun s ↦ ?_) fun remaining ↦ ?_
      · exact forgets_removeNextHop s addr _ _ _ _
      · exact .bind (confined_sendIfGone addr _ remaining) fun _ ↦
          .bind (.release ..) fun _ ↦ ih
    · exact ih

theorem confined_sendChange {R : Node → Node → Prop} {vni : Vni} {dest : Destination}
    {nh : NextHop} {source : PeerKey} (hsend : ∀ action (s : Node),
      R s { s with chan := (s.chan.send ⟨action, vni, dest, nh, source⟩).2 })
    (action : UpdateAction) (remaining : Except Error ℕ) :
    Confined R (sendChange action vni dest nh source remaining) := by
  unfold sendChange
  split
  · exact .ret ()
  · split
    · exact .bind (.sendOn fun s ↦ hsend .remove s) fun _ ↦ .ret ()
    · split
      · exact .bind (.sendOn fun s ↦ hsend .add s) fun _ ↦ .ret ()
      · exact .ret ()

theorem confined_processUpdate {R : Node → Node → Prop} [Std.Refl R] (msg : Pb.Update)
    (hstore : ∀ action vni dest nh, parseUpdate msg = .ok (action, vni, dest, nh) →
      (∀ action (s : Node), R s { s with
        chan := (s.chan.send ⟨action, vni, dest, nh, some self.remoteAddr⟩).2 }) ∧
      ∀ s : Node, R s { s with
        world := (applyUpdate action vni dest nh (some self.remoteAddr) s.world).2 }) :
    Confined R (self.processUpdate msg) := by
  unfold processUpdate
  split
  · exact .ret _
  · next action vni dest nh hparse =>
    obtain ⟨hsend, happly⟩ := hstore action vni dest nh hparse
    refine .bind (.reading ..) fun isSubscribedLocally ↦ ?_
    split
    · exact .ret _
    · refine .bind (.acquire ..) fun _ ↦ .bind (.update happly) fun remaining ↦ ?_
      exact .bind (confined_sendChange hsend action remaining) fun _ ↦
        .bind (.release ..) fun _ ↦ .ret _

theorem confined_initialSync {R : Node → Node → Prop} [Std.Refl R]
    (hsend : ∀ msg, Confined R (self.sendMessage msg))
    (htrigger : Confined R self.triggerShutdown) : Confined R (self.initialSync ord) := by
  have hsubscribes (vnis : List Vni) : Confined R (self.sendInitialSubscribes vnis) := by
    induction vnis with
    | nil => exact .ret ()
    | cons vni rest ih =>
      refine .bind (hsend _) fun r ↦ .bind ?_ fun _ ↦ ih
      cases r with
      | ok _ => exact .ret ()
      | error e => exact htrigger
  have hannouncements (routes : List Route) :
      Confined R (self.sendInitialAnnouncements routes) := by
    induction routes with
    | nil => exact .ret ()
    | cons r rest ih =>
      refine .bind (hsend _) fun r ↦ ?_
      cases r with
      | ok _ => exact ih
      | error e => exact htrigger
  exact .bind (.reading ..) fun _ ↦ .bind (hsubscribes _) fun _ ↦ .bind (.reading ..) fun _ ↦
    hannouncements _

/-- A `KEEPALIVE` makes the connection send and changes nothing but its cell. -/
theorem confined_processKeepalive {R : Node → Node → Prop} [Std.Refl R]
    (hsend : ∀ msg, Confined R (self.sendMessage msg))
    (hcell : ∀ f, Confined R (modify (fun w ↦ w.modifyCell self.id f) : Code Unit)) :
    Confined R (self.processKeepalive ord) := by
  have hestablish : Confined R (self.setState ord .established) := by
    refine .bind (.acquire ..) fun _ ↦ .bind (.gets _) fun old ↦ ?_
    split
    · exact .release ..
    · next hold =>
      refine .bind (hcell _) fun _ ↦ .bind (.release ..) fun _ ↦ ?_
      rw [if_pos ⟨rfl, hold⟩]
      exact confined_initialSync ord self hsend (hcell _)
  refine .bind (.reading ..) fun state ↦ ?_
  cases self.direction with
  | incoming =>
    by_cases hsent : state = .helloSent
    · simp only [hsent, if_true]
      exact .bind hestablish fun _ ↦ .ret _
    · simp only [hsent, if_false]
      split
      · exact .bind (hsend _) fun _ ↦ .ret _
      · exact .ret _
  | outgoing =>
    by_cases hreceived : state = .helloReceived
    · simp only [hreceived, if_true]
      exact .bind hestablish fun _ ↦ .ret _
    · simp only [hreceived, if_false]
      split <;> exact .ret _

def isAdd (msg : Pb.Update) : Bool :=
  match parseUpdate msg with
  | .ok (.add, _) => true
  | _ => false

theorem exec_processUpdate (msg : Pb.Update) :
    ∃ r s', exec [] (self.processUpdate msg) s = .done r [] s' ∧ TableOnly s s' ∧
      (isAdd msg = false → Forgets self.remoteAddr s s') := by
  obtain ⟨r, s', hdone⟩ := ends_processUpdate self msg s
  have hshared : (exec [] (self.processUpdate msg) s).shared = s' := by rw [hdone]; rfl
  refine ⟨r, s', hdone, ?_, fun hadd ↦ ?_⟩
  · have hconf : Confined TableOnly (self.processUpdate msg) := by
      exact confined_processUpdate self msg fun action vni dest nh _ ↦
        ⟨fun _ s ↦ (forgets_send self.remoteAddr s _).1, fun s ↦ tableOnly_applyUpdate s ..⟩
    exact hshared ▸ hconf.exec [] s
  · have hconf : Confined (Forgets self.remoteAddr) (self.processUpdate msg) := by
      refine confined_processUpdate self msg fun action vni dest nh hp ↦
        ⟨fun _ s ↦ forgets_send self.remoteAddr s _, fun s ↦ ?_⟩
      cases action with
      | add => simp [isAdd, hp] at hadd
      | remove => exact forgets_removeNextHop s self.remoteAddr vni dest nh _
    exact hshared ▸ hconf.exec [] s

theorem mb_removeSubscriber (addr : SocketAddr) (vni : Vni) (w : World) :
    (removeSubscriber addr vni w).2.mb =
      { w.mb with subscribers := (removeSubscriber addr vni w).2.mb.subscribers } := by
  unfold removeSubscriber
  split <;> rfl

theorem subscribers_addSubscriber (addr : SocketAddr) (vni v : Vni) (w : World) :
    valueAt (addSubscriber addr vni w).2.mb.subscribers v =
      if v = vni then insert addr (valueAt w.mb.subscribers vni)
      else valueAt w.mb.subscribers v :=
  valueAt_insert ..

theorem cell_removeSubscriber (addr : SocketAddr) (vni : Vni) (w : World) :
    (removeSubscriber addr vni w).2.cell = w.cell := by
  unfold removeSubscriber
  split <;> rfl

theorem subscribers_removeSubscriber (addr : SocketAddr) (vni v : Vni) (w : World) :
    valueAt (removeSubscriber addr vni w).2.mb.subscribers v =
      if v = vni then (valueAt w.mb.subscribers vni).erase addr
      else valueAt w.mb.subscribers v := by
  unfold removeSubscriber
  cases hlookup : w.mb.subscribers.lookup vni with
  | none =>
    by_cases hv : v = vni
    · subst hv
      simp [valueAt, hlookup]
    · simp [hv]
  | some peerSet =>
    have hset : valueAt w.mb.subscribers vni = peerSet := by simp [valueAt, hlookup]
    simp only [World.modifyMb_mb, valueAt_put, hset]

def unsubscribed (vni : Vni) (s : Node) : Node where
  world := (removeSubscriber self.remoteAddr vni s.world).2.modifyCell self.id fun c ↦
    { c with subscribedVnisRemote := c.subscribedVnisRemote.erase vni }
  chan := s.chan

theorem mb_unsubscribed (vni : Vni) : (self.unsubscribed vni s).world.mb = { s.world.mb with
    subscribers := (removeSubscriber self.remoteAddr vni s.world).2.mb.subscribers } :=
  mb_removeSubscriber self.remoteAddr vni s.world

@[simp] theorem routeTable_unsubscribed (vni : Vni) :
    (self.unsubscribed vni s).world.mb.routeTable = s.world.mb.routeTable := by
  rw [mb_unsubscribed]

theorem exec_processUnsubscribe (unsub : Pb.Subscription) :
    ∃ s', exec [] (self.processUnsubscribe ord unsub) s = .done (.ok ()) [] s' ∧
      Forgets self.remoteAddr (self.unsubscribed unsub.vni s) s' := by
  unfold processUnsubscribe recordUnsubscription
  simp only [exec_bind, exec_writing [] _ rfl, Outcome.done_andThen]
  cases (removeSubscriber self.remoteAddr unsub.vni s.world).1 with
  | false => exact ⟨_, rfl, Std.Refl.refl _⟩
  | true =>
    let routes := routeList ord
      ((self.unsubscribed unsub.vni s).world.mb.routeTable.getDestinationsByVniWithPeer unsub.vni)
    obtain ⟨_, s', hdone⟩ := ends_removeLearned self unsub.vni routes
      (self.unsubscribed unsub.vni s)
    refine ⟨s', ?_, ?_⟩
    · simp only [if_true, exec_bind, exec_reading [] _ rfl, Outcome.done_andThen]
      exact congrArg (Outcome.andThen · _) hdone
    · have hconf := (confined_removeLearned self self.remoteAddr unsub.vni routes).exec []
        (self.unsubscribed unsub.vni s)
      rwa [hdone] at hconf

end Peer

end MetalBond
