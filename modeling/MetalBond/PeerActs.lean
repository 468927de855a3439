import MetalBond.Feed
import MetalBond.PeerFrame

namespace MetalBond

open Async Task Collections HashMap

namespace Peer

/-- A property of code that composes. -/
structure Chains (Q : (α : Type) → Code α → Prop) : Prop where
  ret : ∀ {α : Type} (a : α), Q α (.ret a)
  bind : ∀ {α β : Type} {t : Code α} {g : α → Code β}, Q α t → (∀ a, Q β (g a)) → Q β (t >>= g)
  acquire : ∀ l m, Q Unit (Task.acquire l m)
  release : ∀ l m, Q Unit (Task.release l m)
  gets : ∀ {α : Type} (f : World → α), Q α (Task.gets f)
  send : ∀ u, Q Bool (sendOn u)

namespace Chains

variable {Q : (α : Type) → Code α → Prop} (h : Chains Q) (q : Peer)

include h

theorem reading {α : Type} (l : Lock) (f : World → α) : Q α (Task.reading l f) :=
  h.bind (h.acquire ..) fun _ ↦ h.bind (h.gets f) fun _ ↦ h.bind (h.release ..) fun _ ↦ h.ret _

theorem removeLearned (hremove : ∀ vni dest nh,
      Q (Except Error ℕ) (update (applyUpdate .remove vni dest nh (some q.remoteAddr))))
    (vni : Vni) (routes : List (Destination × NextHop × Finset PeerKey)) :
    Q Unit (q.removeLearned vni routes) := by
  induction routes with
  | nil => exact h.ret ()
  | cons x rest ih =>
    unfold Peer.removeLearned
    split
    · refine h.bind (h.acquire ..) fun _ ↦ h.bind (hremove ..) fun n ↦ ?_
      refine h.bind ?_ fun _ ↦ h.bind (h.release ..) fun _ ↦ ih
      unfold sendIfGone
      split
      · exact h.bind (h.send _) fun _ ↦ h.ret ()
      · exact h.ret ()
      · exact h.ret ()
    · exact ih

theorem sendChange (action : UpdateAction) (vni : Vni) (dest : Destination) (nh : NextHop)
    (source : PeerKey) (remaining : Except Error ℕ) :
    Q Unit (sendChange action vni dest nh source remaining) := by
  unfold Peer.sendChange
  split
  · exact h.ret ()
  · split
    · exact h.bind (h.send _) fun _ ↦ h.ret ()
    · split
      · exact h.bind (h.send _) fun _ ↦ h.ret ()
      · exact h.ret ()

theorem storeUpdate (hupdate : ∀ action vni dest nh,
      Q (Except Error ℕ) (update (applyUpdate action vni dest nh (some q.remoteAddr))))
    (action : UpdateAction) (vni : Vni) (dest : Destination) (nh : NextHop) :
    Q (Except Error Unit) (q.storeUpdate action vni dest nh) :=
  h.bind (h.acquire ..) fun _ ↦ h.bind (hupdate ..) fun _ ↦ h.bind (h.sendChange ..) fun _ ↦
    h.bind (h.release ..) fun _ ↦ h.ret _

theorem processUpdate
    (hstore : ∀ action vni dest nh, Q (Except Error Unit) (q.storeUpdate action vni dest nh))
    (msg : Pb.Update) : Q (Except Error Unit) (q.processUpdate msg) := by
  unfold Peer.processUpdate
  split
  · exact h.ret _
  · refine h.bind (h.reading ..) fun isSubscribedLocally ↦ ?_
    split
    · exact h.ret _
    · exact hstore ..

end Chains

/-- A property of code that composes, and that the parts have which the code of a connection is
made of, those apart that change its state. A subscription is recorded in two places, one right
after the other. -/
structure Parts (q : Peer) (Q : (α : Type) → Code α → Prop) : Prop extends Chains Q where
  sendMessage : ∀ msg, Q (Except Error Unit) (q.sendMessage msg)
  signal : ∀ b, Q Unit (modify fun w ↦ w.modifyCell q.id fun c ↦ { c with shutdownSignal := b })
  removeLearned : ∀ vni routes, Q Unit (q.removeLearned vni routes)
  processUpdate : ∀ msg, Q (Except Error Unit) (q.processUpdate msg)
  subscribe : ∀ {α : Type} vni (k : Bool → Code α), (∀ b, Q α (k b)) → Q α (do
    let wasInserted ← writing .metalbondState (addSubscriber q.remoteAddr vni)
    writing (.subscribedVnisRemote q.id) fun w ↦ ((), w.modifyCell q.id fun c ↦
      { c with subscribedVnisRemote := insert vni c.subscribedVnisRemote })
    k wasInserted)
  unsubscribe : ∀ {α : Type} vni (k : Bool → Code α), (∀ b, Q α (k b)) → Q α (do
    let removed ← writing .metalbondState (removeSubscriber q.remoteAddr vni)
    writing (.subscribedVnisRemote q.id) fun w ↦ ((), w.modifyCell q.id fun c ↦
      { c with subscribedVnisRemote := c.subscribedVnisRemote.erase vni })
    k removed)

namespace Parts

variable {q : Peer} {Q : (α : Type) → Code α → Prop} (h : q.Parts Q) (ord : HashOrder)

include h

theorem getState : Q ConnectionState q.getState := h.reading ..

theorem triggerShutdown : Q Unit q.triggerShutdown := h.signal true

theorem shutdownOnError (r : Except Error Unit) : Q Unit (q.shutdownOnError r) := by
  cases r with
  | ok _ => exact h.ret ()
  | error e => exact h.triggerShutdown

theorem initialSync : Q Unit (q.initialSync ord) := by
  have hsubscribes : ∀ vnis, Q Unit (q.sendInitialSubscribes vnis) := by
    intro vnis
    induction vnis with
    | nil => exact h.ret ()
    | cons vni rest ih =>
      exact h.bind (h.sendMessage _) fun r ↦ h.bind (h.shutdownOnError r) fun _ ↦ ih
  have hannouncements : ∀ routes, Q Unit (q.sendInitialAnnouncements routes) := by
    intro routes
    induction routes with
    | nil => exact h.ret ()
    | cons r rest ih =>
      refine h.bind (h.sendMessage _) fun r ↦ ?_
      cases r with
      | ok _ => exact ih
      | error e => exact h.triggerShutdown
  refine h.bind (h.reading ..) fun subs ↦ h.bind (hsubscribes _) fun _ ↦ ?_
  exact h.bind (h.reading ..) fun anns ↦ hannouncements _

theorem sendRemovals (routes : List Route) : Q Unit (sendRemovals q.remoteAddr routes) := by
  induction routes with
  | nil => exact h.ret ()
  | cons r rest ih => exact h.bind (h.send _) fun _ ↦ ih

theorem sendExisting (vni : Vni) (routes : List (Destination × NextHop × Finset PeerKey)) :
    Q (Except Error Unit) (q.sendExisting vni routes) := by
  induction routes with
  | nil => exact h.ret _
  | cons x rest ih =>
    refine h.bind (h.reading ..) fun isRemoteServer ↦ ?_
    split
    · refine h.bind (h.sendMessage _) fun r ↦ ?_
      cases r with
      | ok _ => exact ih
      | error e => exact h.bind h.triggerShutdown fun _ ↦ h.ret _
    · exact ih

theorem processSubscribe (sub : Pb.Subscription) :
    Q (Except Error Unit) (q.processSubscribe ord sub) := by
  refine h.subscribe sub.vni _ fun wasInserted ↦ ?_
  cases wasInserted with
  | true => exact h.bind (h.reading ..) fun routes ↦ h.sendExisting sub.vni _
  | false => exact h.ret _

theorem processUnsubscribe (unsub : Pb.Subscription) :
    Q (Except Error Unit) (q.processUnsubscribe ord unsub) := by
  refine h.unsubscribe unsub.vni _ fun removed ↦ ?_
  cases removed with
  | true => exact h.bind (h.reading ..) fun routes ↦ h.bind (h.removeLearned _ _) fun _ ↦ h.ret _
  | false => exact h.ret _

theorem startKeepalive (later : Instant) (t : Timers) : Q Next (q.startKeepalive later t) := by
  refine h.bind h.getState fun state ↦ ?_
  split
  · split
    · exact h.ret _
    · split
      · exact h.bind (h.sendMessage _) fun r ↦ h.bind (h.shutdownOnError r) fun _ ↦ h.ret _
      · exact h.ret _
  · exact h.ret _

end Parts

structure Whole (q : Peer) (Q : (α : Type) → Code α → Prop) : Prop extends Parts q Q where
  role : ∀ b, Q Unit (modify fun w ↦ w.modifyCell q.id fun c ↦ { c with isRemoteServer := b })
  enter : ∀ newState,
    Q Unit (modify fun w ↦ w.modifyCell q.id fun c ↦ { c with state := newState })
  removeRoutes : ∀ ord, Q (List Route) (removeRoutesFromPeer ord q.remoteAddr)
  dropSubscriptions : Q Unit q.dropSubscriptions

namespace Whole

variable {q : Peer} {Q : (α : Type) → Code α → Prop} (h : q.Whole Q) (ord : HashOrder)

include h

theorem cleanupPeerState : Q Unit (q.cleanupPeerState ord) := by
  refine h.bind (h.acquire ..) fun _ ↦ h.bind (h.removeRoutes ord) fun removed ↦ ?_
  refine h.bind (h.sendRemovals removed) fun _ ↦ h.bind h.dropSubscriptions fun _ ↦ ?_
  exact h.release ..

theorem setState (newState : ConnectionState) : Q Unit (q.setState ord newState) := by
  refine h.bind (h.acquire ..) fun _ ↦ h.bind (h.gets _) fun oldState ↦ ?_
  split
  · exact h.release ..
  · refine h.bind (h.enter newState) fun _ ↦ h.bind (h.release ..) fun _ ↦ ?_
    split
    · exact h.initialSync ord
    · split
      · exact h.cleanupPeerState ord
      · exact h.ret ()

theorem processHello (hello : Pb.Hello) : Q (Except Error Unit) (q.processHello ord hello) := by
  unfold Peer.processHello
  split
  · exact h.ret _
  · have hflag : Q Unit (writing (.isRemoteServer q.id) fun w ↦
        ((), w.modifyCell q.id fun c ↦ { c with isRemoteServer := hello.isServer })) := by
      have hrole := h.role hello.isServer
      exact h.bind (h.acquire ..) fun _ ↦ h.bind hrole fun _ ↦
        h.bind (h.release ..) fun _ ↦ h.ret ()
    refine h.bind hflag fun _ ↦ h.bind h.getState fun currentState ↦ ?_
    cases q.direction with
    | incoming =>
      by_cases hst : currentState = .connecting ∨ currentState = .helloReceived
      · simp only [hst, if_true]
        refine h.bind (h.sendMessage _) fun r ↦ ?_
        cases r with
        | error e => exact h.ret _
        | ok _ => exact h.bind (h.setState ord _) fun _ ↦ h.ret _
      · simp only [hst, if_false]
        exact h.ret _
    | outgoing =>
      by_cases hst : currentState = .helloSent
      · simp only [hst, if_true]
        exact h.bind (h.setState ord _) fun _ ↦ h.ret _
      · simp only [hst, if_false]
        exact h.ret _

theorem processKeepalive : Q (Except Error Unit) (q.processKeepalive ord) := by
  have hestablish : Q (Except Error Unit) (do q.setState ord .established; return .ok ()) :=
    h.bind (h.setState ord _) fun _ ↦ h.ret _
  refine h.bind h.getState fun st ↦ ?_
  cases q.direction with
  | incoming =>
    by_cases hsent : st = .helloSent
    · simp only [hsent, if_true]
      exact hestablish
    · by_cases hst : st = .established
      · simp only [hst, if_true]
        exact h.bind (h.sendMessage _) fun r ↦ h.ret _
      · simp only [hsent, hst, if_false]
        exact h.ret _
  | outgoing =>
    by_cases hreceived : st = .helloReceived
    · simp only [hreceived, if_true]
      exact hestablish
    · simp only [hreceived, if_false]
      split <;> exact h.ret _

theorem process (msg : GeneratedMessage) : Q (Except Error Unit) (q.process ord msg) := by
  cases msg with
  | hello hello => exact h.processHello ord hello
  | keepalive => exact h.processKeepalive ord
  | subscribe sub => exact h.processSubscribe ord sub
  | unsubscribe unsub => exact h.processUnsubscribe ord unsub
  | update msg => exact h.processUpdate msg

theorem closeAndTrigger : Q Unit (q.closeAndTrigger ord) :=
  h.bind (h.setState ord .closed) fun _ ↦ h.triggerShutdown

theorem handleMessage (now later : Instant) (t : Timers) (msg : GeneratedMessage) :
    Q Next (q.handleMessage ord now later t msg) := by
  unfold Peer.handleMessage
  split
  · exact h.ret _
  · next t _ =>
    refine h.bind (h.process ord msg) fun r ↦ ?_
    cases r with
    | error e => exact h.bind (h.closeAndTrigger ord) fun _ ↦ h.ret _
    | ok _ => exact h.startKeepalive later t

theorem selectRound (htake : Q Unit (modify q.takeOutgoing)) (r : Round) (t : Timers) :
    Q Next (q.selectRound ord r t) := by
  unfold Peer.selectRound handleBranch
  split
  · refine h.bind (h.signal false) fun _ ↦ ?_
    exact h.bind (h.setState ord _) fun _ ↦ h.ret _
  · exact h.handleMessage ord _ _ _ _
  · exact h.bind (h.closeAndTrigger ord) fun _ ↦ h.ret _
  · exact h.bind (h.closeAndTrigger ord) fun _ ↦ h.ret _
  · refine h.bind htake fun _ ↦ ?_
    split
    · exact h.ret _
    · exact h.bind (h.closeAndTrigger ord) fun _ ↦ h.ret _
  · refine h.bind h.getState fun state ↦ ?_
    split
    · exact h.bind (h.sendMessage _) fun r ↦ h.bind (h.shutdownOnError r) fun _ ↦ h.ret _
    · exact h.ret _
  · exact h.bind (h.closeAndTrigger ord) fun _ ↦ h.ret _

theorem startPeer : Q Bool (q.startPeer ord) := by
  unfold Peer.startPeer
  split
  · refine h.bind (h.reading ..) fun isServer ↦ h.bind (h.sendMessage _) fun r ↦ ?_
    cases r with
    | error e => exact h.bind (h.setState ord _) fun _ ↦ h.ret _
    | ok _ => exact h.bind (h.setState ord _) fun _ ↦ h.ret _
  · exact h.bind (h.setState ord _) fun _ ↦ h.ret _

end Whole

/-- The parts have the property, with each change of the table on its own. -/
structure Talks (q : Peer) (Q : (α : Type) → Code α → Prop) : Prop extends Parts q Q where
  update : ∀ action vni dest nh,
    Q (Except Error ℕ) (Task.update (applyUpdate action vni dest nh (some q.remoteAddr)))
  removeLearned := Chains.removeLearned ⟨ret, bind, acquire, release, gets, send⟩ q (update .remove)
  processUpdate := Chains.processUpdate ⟨ret, bind, acquire, release, gets, send⟩ q
    (Chains.storeUpdate ⟨ret, bind, acquire, release, gets, send⟩ q update)

/-- All the code of a connection has the property, with each change of the table on its own. -/
structure Composes (q : Peer) (Q : (α : Type) → Code α → Prop) : Prop extends Talks q Q, Whole q Q

theorem takeOutgoing_eq (q : Peer) (w : World) :
    ∃ tx, q.takeOutgoing w = w.modifyCell q.id fun c ↦ { c with tx := tx } := by
  unfold takeOutgoing
  split
  · exact ⟨(w.cell q.id).tx, (World.setCell_self ..).symm⟩
  · exact ⟨_, rfl⟩

/-- Each single step that the code of a connection takes is within the relation, the one that
takes a message off its queue apart. -/
structure Acts (q : Peer) (R : Node → Node → Prop) : Prop where
  refl : Std.Refl R
  sent : ∀ s msg, R s (q.sent s msg)
  cell : ∀ (s : Node) (f : PeerCell → PeerCell), (∀ c, (f c).tx = c.tx) →
    R s { s with world := s.world.modifyCell q.id f }
  send : ∀ (s : Node) u, R s { s with chan := (s.chan.send u).2 }
  update : ∀ (s : Node) action vni dest nh, R s { s with
    world := (applyUpdate action vni dest nh (some q.remoteAddr) s.world).2 }
  removeRoutes : ∀ (s : Node) ord, R s { s with world := s.world.modifyMb fun mb ↦
    { mb with routeTable := (mb.routeTable.removeRoutesFromPeer ord q.remoteAddr).2 } }
  subscribe : ∀ (s : Node) vni, R s { s with world := (addSubscriber q.remoteAddr vni s.world).2 }
  unsubscribe : ∀ (s : Node) vni, R s { s with
    world := (removeSubscriber q.remoteAddr vni s.world).2 }
  forget : ∀ (s : Node) vnis, R s { s with world := s.world.modifyMb fun mb ↦
    { mb with subscribers := forgetSubscriber q.remoteAddr vnis mb.subscribers } }

namespace Acts

theorem mono {q : Peer} {R R' : Node → Node → Prop} (h : q.Acts R) [hrefl : Std.Refl R']
    (hR : ∀ s s', R s s' → R' s s') : q.Acts R' where
  refl := hrefl
  sent s msg := hR _ _ (h.sent s msg)
  cell s f hf := hR _ _ (h.cell s f hf)
  send s u := hR _ _ (h.send s u)
  update s action vni dest nh := hR _ _ (h.update s action vni dest nh)
  removeRoutes s ord := hR _ _ (h.removeRoutes s ord)
  subscribe s vni := hR _ _ (h.subscribe s vni)
  unsubscribe s vni := hR _ _ (h.unsubscribe s vni)
  forget s vnis := hR _ _ (h.forget s vnis)

theorem and {q : Peer} {R R' : Node → Node → Prop} (h : q.Acts R) (h' : q.Acts R') :
    q.Acts fun s s' ↦ R s s' ∧ R' s s' where
  refl := ⟨fun s ↦ ⟨h.refl.refl s, h'.refl.refl s⟩⟩
  sent s msg := ⟨h.sent s msg, h'.sent s msg⟩
  cell s f hf := ⟨h.cell s f hf, h'.cell s f hf⟩
  send s u := ⟨h.send s u, h'.send s u⟩
  update s action vni dest nh := ⟨h.update s action vni dest nh, h'.update s action vni dest nh⟩
  removeRoutes s ord := ⟨h.removeRoutes s ord, h'.removeRoutes s ord⟩
  subscribe s vni := ⟨h.subscribe s vni, h'.subscribe s vni⟩
  unsubscribe s vni := ⟨h.unsubscribe s vni, h'.unsubscribe s vni⟩
  forget s vnis := ⟨h.forget s vnis, h'.forget s vnis⟩

variable {q : Peer} {R : Node → Node → Prop} (h : q.Acts R) (ord : HashOrder)

include h

theorem dropSubscriptions : Confined R q.dropSubscriptions := by
  have := h.refl
  refine .bind (.acquire ..) fun _ ↦ .bind (.gets _) fun remoteSubs ↦ ?_
  split
  · exact .release ..
  · refine .bind (.acquire ..) fun _ ↦ .bind (.modify fun s ↦ h.forget s remoteSubs) fun _ ↦ ?_
    refine .bind (.modify fun s ↦ h.cell s _ fun _ ↦ rfl) fun _ ↦ ?_
    exact .bind (.release ..) fun _ ↦ .release ..

theorem composes : q.Composes fun _ t ↦ Confined R t where
  ret a := .ret a
  bind := .bind
  acquire l m := .acquire l m
  release l m := .release l m
  gets f := have := h.refl; .gets f
  sendMessage msg := .update fun s ↦ h.sent s msg
  signal b := .modify fun s ↦ h.cell s _ fun _ ↦ rfl
  role b := .modify fun s ↦ h.cell s _ fun _ ↦ rfl
  enter newState := .modify fun s ↦ h.cell s _ fun _ ↦ rfl
  send u := .sendOn fun s ↦ h.send s u
  update action vni dest nh := .update fun s ↦ h.update s action vni dest nh
  removeRoutes ord := .update fun s ↦ h.removeRoutes s ord
  subscribe vni k hk := by
    let f (c : PeerCell) : PeerCell :=
      { c with subscribedVnisRemote := insert vni c.subscribedVnisRemote }
    have hrecord : ∀ s : Node, R s { s with world := s.world.modifyCell q.id f } :=
      fun s ↦ h.cell s f fun _ ↦ rfl
    exact .bind (.writing fun s ↦ h.subscribe s vni) fun b ↦ .bind (.writing hrecord) fun _ ↦ hk b
  unsubscribe vni k hk := by
    let f (c : PeerCell) : PeerCell :=
      { c with subscribedVnisRemote := c.subscribedVnisRemote.erase vni }
    have hrecord : ∀ s : Node, R s { s with world := s.world.modifyCell q.id f } :=
      fun s ↦ h.cell s f fun _ ↦ rfl
    exact .bind (.writing fun s ↦ h.unsubscribe s vni) fun b ↦ .bind (.writing hrecord) fun _ ↦ hk b
  dropSubscriptions := h.dropSubscriptions

end Acts

end Peer

end MetalBond
