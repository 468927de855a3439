import MetalBond.Async.Invariant
import MetalBond.SubscriptionRecords

namespace MetalBond.Provenance

open Async Task Collections HashMap Peer
open Losses (dropReceiver)
open SubscriptionRecords (Actor)

/-- What may reach a node: on which connections a KEEPALIVE, which VNIs are asked for on each
and which routes announced, and what its application subscribes to and announces. -/
structure Outside (ι : Type) where
  server : Bool
  confirmed : Set ι
  asked : ι → Set Vni
  announced : ι → Set Route
  wanted : Set Vni
  own : Set Route

namespace Outside

variable {ι : Type} (O : Outside ι) (peers : ι → Peer)

def Admits (i : ι) : GeneratedMessage → Prop
  | .keepalive => i ∈ O.confirmed
  | .subscribe sub => sub.vni ∈ O.asked i
  | .update msg => ∀ vni dest nh, parseUpdate msg = .ok (.add, vni, dest, nh) →
    (vni, dest, nh) ∈ O.announced i
  | .hello _ | .unsubscribe _ => True

/-- A server refuses to subscribe. -/
def subscribable : Set Vni := {vni | O.server = false ∧ vni ∈ O.wanted}

def askedBy (addr : SocketAddr) : Set Vni :=
  {vni | ∃ i, (peers i).remoteAddr = addr ∧ vni ∈ O.asked i}

/-- The routes to be learned from a source. What is heard on a connection that the node opened
itself counts only for the VNIs that the application wants. -/
def announcedBy : PeerKey → Set Route
  | none => O.own
  | some addr => {r | ∃ i, (peers i).remoteAddr = addr ∧ r ∈ O.announced i ∧
    ((peers i).direction = .outgoing → r.1 ∈ O.subscribable)}

/-- What a node has reason to tell a peer: its own subscriptions and announcements once the peer
has confirmed the handshake, and what it announces itself or others announce of the VNIs that the
peer asked for. A route with a NAT hop does not go back to the only one that announces it. -/
inductive Tellable (i : ι) : GeneratedMessage → Prop
  | hello (hello : Pb.Hello) : Tellable i (.hello hello)
  | keepalive : i ∈ O.confirmed → Tellable i .keepalive
  | subscribe (vni : Vni) : i ∈ O.confirmed → vni ∈ O.subscribable → Tellable i (.subscribe ⟨vni⟩)
  | unsubscribe (vni : Vni) : i ∈ O.confirmed → vni ∈ O.subscribable →
    Tellable i (.unsubscribe ⟨vni⟩)
  | announcement (vni : Vni) (dest : Destination) (nh : NextHop) : i ∈ O.confirmed →
    (vni, dest, nh) ∈ O.own → Tellable i (updateMessage .add vni dest nh)
  | requested (action : UpdateAction) (vni : Vni) (dest : Destination) (nh : NextHop) :
    vni ∈ O.askedBy peers (peers i).remoteAddr → (vni, dest, nh) ∈ O.own →
    Tellable i (updateMessage action vni dest nh)
  | route (action : UpdateAction) (vni : Vni) (dest : Destination) (nh : NextHop)
    (source : SocketAddr) : vni ∈ O.askedBy peers (peers i).remoteAddr →
    (vni, dest, nh) ∈ O.announcedBy peers (some source) →
    (nh.hopType = .nat → source ≠ (peers i).remoteAddr) →
    Tellable i (updateMessage action vni dest nh)

variable {O peers} in
theorem Tellable.ofSource {i : ι} (action : UpdateAction) {vni : Vni} {dest : Destination}
    {nh : NextHop} {source : PeerKey} (hasked : vni ∈ O.askedBy peers (peers i).remoteAddr)
    (hannounced : (vni, dest, nh) ∈ O.announcedBy peers source)
    (hnat : nh.hopType = .nat → source ≠ some (peers i).remoteAddr) :
    O.Tellable peers i (updateMessage action vni dest nh) := by
  cases source with
  | none => exact .requested action vni dest nh hasked hannounced
  | some addr =>
    exact .route action vni dest nh addr hasked hannounced fun htype heq ↦
      hnat htype (congrArg some heq)

variable {O peers} in
theorem Tellable.reason {i : ι} {msg : GeneratedMessage} {action : UpdateAction} {r : Route}
    (h : O.Tellable peers i msg) (hroute : msg.route? = some (action, r)) :
    r ∈ O.own ∨ r.1 ∈ O.askedBy peers (peers i).remoteAddr ∧
      ∃ addr, r ∈ O.announcedBy peers (some addr) ∧
        (r.2.2.hopType = .nat → addr ≠ (peers i).remoteAddr) := by
  cases h with
  | hello hello => cases hroute
  | keepalive _ => cases hroute
  | subscribe vni _ _ => cases hroute
  | unsubscribe vni _ _ => cases hroute
  | announcement vni dest nh _ hown =>
    cases (route?_updateMessage ..).symm.trans hroute
    exact .inl hown
  | requested _ vni dest nh _ hown =>
    cases (route?_updateMessage ..).symm.trans hroute
    exact .inl hown
  | route _ vni dest nh source hasked hannounced hnat =>
    cases (route?_updateMessage ..).symm.trans hroute
    exact .inr ⟨hasked, source, hannounced, hnat⟩

def Knows : ClientCall → Prop
  | .addRoute vni dest nh | .removeRoute vni dest nh =>
    ∃ k, (vni, dest, nh) ∈ O.announcedBy peers k
  | .clearRoutesForVni vni => vni ∈ O.subscribable

end Outside

/-- The calls of an application that subscribes only to VNIs that it wants and announces only
its own routes. -/
inductive OwnCall (wanted : Set Vni) (own : Set Route) : Code (Except Error Unit) → Prop
  | subscribe (ord : HashOrder) (vni : Vni) : vni ∈ wanted → OwnCall wanted own (subscribe ord vni)
  | unsubscribe (ord : HashOrder) (vni : Vni) : OwnCall wanted own (unsubscribe ord vni)
  | announceRoute (vni : Vni) (dest : Destination) (nh : NextHop) : (vni, dest, nh) ∈ own →
    OwnCall wanted own (announceRoute vni dest nh)
  | withdrawRoute (vni : Vni) (dest : Destination) (nh : NextHop) :
    OwnCall wanted own (withdrawRoute vni dest nh)
  | addPeer (parse : String → Option SocketAddr) (serverAddr : String) :
    OwnCall wanted own (addPeer parse serverAddr)
  | removePeer (parse : String → Option SocketAddr) (ord : HashOrder) (addrStr : String) :
    OwnCall wanted own (removePeer parse ord addrStr)

/-- What the tasks of a node do from one wait to the next, while the connections hear only what
they may. -/
inductive Work {ι κ : Type} (Heard : ι → GeneratedMessage → Prop) (wanted : Set Vni)
    (own : Set Route) (peers : ι → Peer) : Actor ι κ → Option InternalUpdate → Code Unit → Prop
  | connect (i : ι) (ord : HashOrder) : Work Heard wanted own peers (.connection i) none (do
      insertPeer (peers i)
      let _ ← (peers i).startPeer ord
      return ())
  | round (i : ι) (ord : HashOrder) (r : Round) (t : Timers)
    (hheard : ∀ msg, r.won = .frame (.message msg) → Heard i msg) :
    Work Heard wanted own peers (.connection i) none (do
      let _ ← (peers i).selectRound ord r t
      return ())
  | disconnect (i : ι) : Work Heard wanted own peers (.connection i) none (do
      modify (dropReceiver (peers i))
      erasePeer (peers i).remoteAddr)
  | call (k : κ) {t : Code (Except Error Unit)} (h : OwnCall wanted own t) :
    Work Heard wanted own peers (.caller k) none (do
      let _ ← t
      return ())
  | distribute (ord : HashOrder) (u : InternalUpdate) :
    Work Heard wanted own peers .distributor (some u) (do
      let _ ← distribute ord u
      return ())

theorem Work.mono {ι κ : Type} {Heard Heard' : ι → GeneratedMessage → Prop} {wanted : Set Vni}
    {own : Set Route} {peers : ι → Peer} {a : Actor ι κ} {o : Option InternalUpdate}
    {t : Code Unit} (h : Work Heard wanted own peers a o t)
    (hheard : ∀ i msg, Heard i msg → Heard' i msg) : Work Heard' wanted own peers a o t := by
  cases h with
  | connect i ord => exact .connect i ord
  | round i ord r t h => exact .round i ord r t fun msg hwon ↦ hheard i msg (h msg hwon)
  | disconnect i => exact .disconnect i
  | call k h => exact .call k h
  | distribute ord u => exact .distribute ord u

section Grounded

variable {ι : Type} (O : Outside ι) (peers : ι → Peer)

/-- All that a node holds, tells its peers or does to the OS goes back to what came from
outside. -/
structure Grounded (s : Node) : Prop where
  mode : s.world.mb.isServer = O.server
  established : ∀ i, ((peers i).cellOf s).state = .established → i ∈ O.confirmed
  told : ∀ i, ∀ msg ∈ ((peers i).cellOf s).tx.history, O.Tellable peers i msg
  subscriptions : ∀ vni ∈ s.world.mb.mySubscriptions, vni ∈ O.subscribable
  subscribers : ∀ vni addr, addr ∈ valueAt s.world.mb.subscribers vni → vni ∈ O.askedBy peers addr
  routes : ∀ r k, k ∈ s.world.mb.routeTable.sources r → k ≠ none ∧ r ∈ O.announcedBy peers k
  announcements : ∀ r, none ∈ s.world.mb.myAnnouncements.sources r → r ∈ O.own
  listed : ∀ addr p, s.world.mb.peers.lookup addr = some p → p.remoteAddr = addr ∧ ∃ i, peers i = p
  updates : ∀ u ∈ s.chan.history, u.route ∈ O.announcedBy peers u.sourcePeer
  calls : ∀ call ∈ s.world.client.calls, O.Knows peers call

/-- Nothing has come from outside yet. -/
structure Unheard (server : Bool) (s : Node) : Prop where
  mode : s.world.mb.isServer = server
  cells : ∀ i, (peers i).cellOf s = .new
  subscriptions : s.world.mb.mySubscriptions = ∅
  subscribers : s.world.mb.subscribers = ∅
  routes : s.world.mb.routeTable = .new
  announcements : s.world.mb.myAnnouncements = .new
  peers : s.world.mb.peers = ∅
  updates : s.chan.history = []
  calls : s.world.client.calls = []

variable {O peers} {s : Node}

theorem Unheard.grounded (h : Unheard peers O.server s) : Grounded O peers s where
  mode := h.mode
  established i hest := by
    rw [h.cells i] at hest
    cases hest
  told i msg hmsg := by
    rw [h.cells i] at hmsg
    cases hmsg
  subscriptions vni hvni := by
    rw [h.subscriptions] at hvni
    cases hvni
  subscribers vni addr haddr := by
    rw [h.subscribers, valueAt_empty] at haddr
    cases haddr
  routes r k hk := by
    rw [h.routes] at hk
    cases hk
  announcements r hr := by
    rw [h.announcements] at hr
    cases hr
  listed addr p hp := by
    rw [h.peers] at hp
    cases hp
  updates u hu := by
    rw [h.updates] at hu
    cases hu
  calls call hcall := by
    rw [h.calls] at hcall
    cases hcall

namespace Grounded

section Data

variable (h : Grounded O peers s)

include h

theorem withSubscriptions {vnis : Finset Vni} (hwanted : ∀ vni ∈ vnis, vni ∈ O.subscribable) :
    Grounded O peers { s with
      world := s.world.modifyMb fun mb ↦ { mb with mySubscriptions := vnis } } :=
  { h with subscriptions := hwanted }

theorem withTable {t : RouteTable}
    (ht : ∀ r k, k ∈ t.sources r → k ≠ none ∧ r ∈ O.announcedBy peers k) :
    Grounded O peers { s with world := s.world.modifyMb fun mb ↦ { mb with routeTable := t } } :=
  { h with routes := ht }

theorem withSubscribers {subscribers : HashMap Vni (Finset SocketAddr)}
    (hsubs : ∀ vni addr, addr ∈ valueAt subscribers vni → vni ∈ O.askedBy peers addr) :
    Grounded O peers { s with
      world := s.world.modifyMb fun mb ↦ { mb with subscribers := subscribers } } :=
  { h with subscribers := hsubs }

theorem withAnnouncements {t : RouteTable} (ht : ∀ r, none ∈ t.sources r → r ∈ O.own) :
    Grounded O peers { s with
      world := s.world.modifyMb fun mb ↦ { mb with myAnnouncements := t } } :=
  { h with announcements := ht }

theorem withPeers {listed : HashMap SocketAddr Peer}
    (hlisted : ∀ addr p, listed.lookup addr = some p → p.remoteAddr = addr ∧ ∃ i, peers i = p) :
    Grounded O peers { s with
      world := s.world.modifyMb fun mb ↦ { mb with peers := listed } } :=
  { h with listed := hlisted }

theorem withChan {ch : Channel InternalUpdate}
    (hupdates : ∀ u ∈ ch.history, u.route ∈ O.announcedBy peers u.sourcePeer) :
    Grounded O peers { s with chan := ch } := { h with updates := hupdates }

theorem send {u : InternalUpdate} (hu : u.route ∈ O.announcedBy peers u.sourcePeer) :
    Grounded O peers { s with chan := (s.chan.send u).2 } := by
  refine h.withChan fun v hv ↦ ?_
  unfold Channel.send at hv
  split at hv
  · exact h.updates v hv
  · rw [Channel.history_push, List.mem_append, List.mem_singleton] at hv
    rcases hv with hv | rfl
    · exact h.updates v hv
    · exact hu

theorem called {call : ClientCall} (hcall : O.Knows peers call) : Grounded O peers { s with
    world := { s.world with client := (s.world.client.call call).2 } } := by
  refine { h with calls := fun call' hcall' ↦ ?_ }
  rcases List.mem_append.mp hcall' with hold | hnew
  · exact h.calls call' hold
  · rwa [List.mem_singleton.mp hnew]

end Data

theorem mem_history_trySend {c : PeerCell} {msg m : GeneratedMessage}
    (hm : m ∈ (c.trySend msg).2.tx.history) : m ∈ c.tx.history ∨ m = msg := by
  unfold PeerCell.trySend at hm
  cases hsend : c.tx.trySend msg with
  | ok tx =>
    rw [hsend] at hm
    have hchannel := Mailbox.toChannel_of_trySend hsend
    rwa [show m ∈ tx.history ↔ _ from by rw [hchannel, Channel.history_push], List.mem_append,
      List.mem_singleton] at hm
  | error e =>
    rw [hsend] at hm
    cases e <;> exact .inl hm

section Cells

variable (hinj : Function.Injective fun i ↦ (peers i).id) (h : Grounded O peers s)

include h

theorem withCell {c : PeerId → PeerCell}
    (hestablished : ∀ i, (c (peers i).id).state = .established → i ∈ O.confirmed)
    (htold : ∀ i, ∀ msg ∈ (c (peers i).id).tx.history, O.Tellable peers i msg) :
    Grounded O peers { s with world := { s.world with cell := c } } :=
  { h with established := hestablished, told := htold }

include hinj

theorem setCell (i : ι) {c : PeerCell} (hestablished : c.state = .established → i ∈ O.confirmed)
    (htold : ∀ msg ∈ c.tx.history, O.Tellable peers i msg) :
    Grounded O peers { s with world := s.world.setCell (peers i).id c } := by
  refine h.withCell (fun j hj ↦ ?_) fun j msg hmsg ↦ ?_
  · by_cases hij : j = i
    · subst hij
      exact hestablished (by rwa [Function.update_self] at hj)
    · rw [Function.update_of_ne fun hid ↦ hij (hinj hid)] at hj
      exact h.established j hj
  · by_cases hij : j = i
    · subst hij
      exact htold msg (by rwa [Function.update_self] at hmsg)
    · rw [Function.update_of_ne fun hid ↦ hij (hinj hid)] at hmsg
      exact h.told j msg hmsg

theorem modifyCell (i : ι) {f : PeerCell → PeerCell}
    (hstate : ∀ c, (f c).state = .established → c.state = .established ∨ i ∈ O.confirmed)
    (htx : ∀ c, (f c).tx.history = c.tx.history) :
    Grounded O peers { s with world := s.world.modifyCell (peers i).id f } := by
  refine h.setCell hinj i (fun hest ↦ ?_) fun msg hmsg ↦ ?_
  · rcases hstate _ hest with hest | hconfirmed
    · exact h.established i hest
    · exact hconfirmed
  · rw [htx] at hmsg
    exact h.told i msg hmsg

theorem sent (i : ι) {msg : GeneratedMessage} (hmsg : O.Tellable peers i msg) :
    Grounded O peers ((peers i).sent s msg) := by
  have hlink := ((peers i).cellOf s).sameLink_trySend msg
  refine h.setCell hinj i (fun hest ↦ h.established i (hlink.2.1 ▸ hest)) fun m hm ↦ ?_
  rcases mem_history_trySend hm with hold | rfl
  · exact h.told i m hold
  · exact hmsg

end Cells

end Grounded

end Grounded

section Code

variable {ι : Type} {O : Outside ι} {peers : ι → Peer}
variable (hinj : Function.Injective fun i ↦ (peers i).id)
variable (ord : HashOrder) (i : ι)

abbrev Keeps {α : Type} (O : Outside ι) (peers : ι → Peer) (Post : α → Prop) (t : Code α) : Prop :=
  Task.Keeps (Grounded O peers) Post t

theorem keeps_getState : Keeps O peers (fun st ↦ st = .established → i ∈ O.confirmed)
    (peers i).getState :=
  .reading fun _ hs hest ↦ hs.established i hest

theorem keeps_sendRemovals {source : SocketAddr} {routes : List Route}
    (hroutes : ∀ r ∈ routes, r ∈ O.announcedBy peers (some source)) :
    Keeps O peers (fun _ ↦ True) (sendRemovals source routes) := by
  induction routes with
  | nil => exact .ret trivial
  | cons r rest ih =>
    have hsend : Keeps O peers (fun _ ↦ True) (sendOn ⟨.remove, r.1, r.2.1, r.2.2, some source⟩) :=
      .sendOn fun s hs ↦ hs.send (hroutes r List.mem_cons_self)
    exact hsend.andThen fun _ ↦ ih fun r hr ↦ hroutes r (List.mem_cons_of_mem _ hr)

theorem keeps_removeRoutesFromPeer (source : SocketAddr) :
    Keeps O peers (fun routes ↦ ∀ r ∈ routes, r ∈ O.announcedBy peers (some source))
      (removeRoutesFromPeer ord source) := by
  refine .update fun s hs ↦ ⟨hs.withTable fun r k hk ↦ ?_, fun r hr ↦ ?_⟩
  · change k ∈ (s.world.mb.routeTable.dropPeer source).sources r at hk
    rw [RouteTable.sources_dropPeer] at hk
    exact hs.routes r k (Finset.mem_of_mem_erase hk)
  · exact (hs.routes r _ ((RouteTable.mem_removeRoutesFromPeer ord).mp hr)).2

include hinj

theorem keeps_sendMessage {msg : GeneratedMessage} (hmsg : O.Tellable peers i msg) :
    Keeps O peers (fun _ ↦ True) ((peers i).sendMessage msg) :=
  .update fun _ hs ↦ ⟨hs.sent hinj i hmsg, trivial⟩

theorem keeps_modifyCell {f : PeerCell → PeerCell}
    (hstate : ∀ c, (f c).state = .established → c.state = .established ∨ i ∈ O.confirmed)
    (htx : ∀ c, (f c).tx.history = c.tx.history) :
    Keeps O peers (fun _ ↦ True) (modify fun w ↦ w.modifyCell (peers i).id f) :=
  .modify fun _ hs ↦ hs.modifyCell hinj i hstate htx

theorem keeps_writeCell {l : Lock} {f : PeerCell → PeerCell}
    (hstate : ∀ c, (f c).state = .established → c.state = .established ∨ i ∈ O.confirmed)
    (htx : ∀ c, (f c).tx.history = c.tx.history) :
    Keeps O peers (fun _ ↦ True) (writing l fun w ↦ ((), w.modifyCell (peers i).id f)) :=
  .writing fun _ hs ↦ ⟨hs.modifyCell hinj i hstate htx, trivial⟩

theorem keeps_triggerShutdown : Keeps O peers (fun _ ↦ True) (peers i).triggerShutdown :=
  keeps_modifyCell hinj i (fun _ ↦ .inl) fun _ ↦ rfl

theorem keeps_shutdownOnError (r : Except Error Unit) :
    Keeps O peers (fun _ ↦ True) ((peers i).shutdownOnError r) := by
  cases r with
  | ok _ => exact .ret trivial
  | error e => exact keeps_triggerShutdown hinj i

section Established

variable {i} (hconfirmed : i ∈ O.confirmed)

include hconfirmed

theorem keeps_sendInitialSubscribes {vnis : List Vni}
    (hwanted : ∀ vni ∈ vnis, vni ∈ O.subscribable) :
    Keeps O peers (fun _ ↦ True) ((peers i).sendInitialSubscribes vnis) := by
  induction vnis with
  | nil => exact .ret trivial
  | cons vni rest ih =>
    have hmsg : O.Tellable peers i (.subscribe ⟨vni⟩) :=
      .subscribe vni hconfirmed (hwanted vni List.mem_cons_self)
    refine (keeps_sendMessage hinj i hmsg).andThen fun r ↦ ?_
    refine (keeps_shutdownOnError hinj i r).andThen fun _ ↦ ?_
    exact ih fun vni hvni ↦ hwanted vni (List.mem_cons_of_mem _ hvni)

theorem keeps_sendInitialAnnouncements {routes : List Route}
    (hroutes : ∀ r ∈ routes, r ∈ O.own) :
    Keeps O peers (fun _ ↦ True) ((peers i).sendInitialAnnouncements routes) := by
  induction routes with
  | nil => exact .ret trivial
  | cons r rest ih =>
    obtain ⟨vni, dest, hop⟩ := r
    have hmsg : O.Tellable peers i (updateMessage .add vni dest hop) :=
      .announcement vni dest hop hconfirmed (hroutes _ List.mem_cons_self)
    refine (keeps_sendMessage hinj i hmsg).andThen fun r ↦ ?_
    cases r with
    | ok _ => exact ih fun r hr ↦ hroutes r (List.mem_cons_of_mem _ hr)
    | error e => exact keeps_triggerShutdown hinj i

theorem keeps_initialSync : Keeps O peers (fun _ ↦ True) ((peers i).initialSync ord) := by
  have hsubs : Keeps O peers (fun vnis ↦ ∀ vni ∈ ord.list vnis, vni ∈ O.subscribable)
      (reading .metalbondState fun w ↦ w.mb.mySubscriptions) :=
    .reading fun s hs vni hvni ↦ hs.subscriptions vni ((ord.mem_list ..).mp hvni)
  refine hsubs.bind fun _ hwanted ↦ ?_
  refine (keeps_sendInitialSubscribes hinj hconfirmed hwanted).andThen fun _ ↦ ?_
  have hread : Keeps O peers (fun announcements ↦
      ∀ r ∈ announcementList ord announcements, r ∈ O.own)
      (reading .metalbondState fun w ↦ w.mb.myAnnouncements.getLocalAnnouncements) :=
    .reading fun s hs r hr ↦ hs.announcements r ((mem_announcementList ord).mp hr)
  exact hread.bind fun _ hroutes ↦ keeps_sendInitialAnnouncements hinj hconfirmed hroutes

end Established

theorem keeps_dropSubscriptions : Keeps O peers (fun _ ↦ True) (peers i).dropSubscriptions := by
  refine .andThen (.acquire ..) fun _ ↦ .andThen (.gets_any _) fun remoteSubs ↦ ?_
  split
  · exact .release ..
  · have hforget : Keeps O peers (fun _ ↦ True) (modify fun w ↦ w.modifyMb fun mb ↦ { mb with
        subscribers := forgetSubscriber (peers i).remoteAddr remoteSubs mb.subscribers }) := by
      refine .modify fun s hs ↦ hs.withSubscribers fun vni addr haddr ↦ ?_
      rw [valueAt_forgetSubscriber] at haddr
      split at haddr
      · exact hs.subscribers vni addr (Finset.mem_of_mem_erase haddr)
      · exact hs.subscribers vni addr haddr
    refine .andThen (.acquire ..) fun _ ↦ hforget.andThen fun _ ↦ ?_
    refine .andThen (keeps_modifyCell hinj i (fun _ ↦ .inl) fun _ ↦ rfl) fun _ ↦ ?_
    exact .andThen (.release ..) fun _ ↦ .release ..

theorem keeps_cleanupPeerState : Keeps O peers (fun _ ↦ True) ((peers i).cleanupPeerState ord) := by
  refine .andThen (.acquire ..) fun _ ↦ ?_
  refine (keeps_removeRoutesFromPeer ord _).bind fun removed hremoved ↦ ?_
  refine (keeps_sendRemovals hremoved).andThen fun _ ↦ ?_
  exact (keeps_dropSubscriptions hinj i).andThen fun _ ↦ .release ..

theorem keeps_setState {newState : ConnectionState}
    (hnew : newState = .established → i ∈ O.confirmed) :
    Keeps O peers (fun _ ↦ True) ((peers i).setState ord newState) := by
  refine .andThen (.acquire ..) fun _ ↦ .andThen (.gets_any _) fun oldState ↦ ?_
  split
  · exact .release ..
  · refine .andThen (keeps_modifyCell hinj i (fun _ hest ↦ .inr (hnew hest)) fun _ ↦ rfl) fun _ ↦ ?_
    refine .andThen (.release ..) fun _ ↦ ?_
    split
    · next hest => exact keeps_initialSync hinj ord (hnew hest.1)
    · split
      · exact keeps_cleanupPeerState hinj ord i
      · exact .ret trivial

theorem keeps_processHello (hello : Pb.Hello) :
    Keeps O peers (fun _ ↦ True) ((peers i).processHello ord hello) := by
  unfold processHello
  split
  · exact .ret trivial
  · refine .andThen (keeps_writeCell hinj i (fun _ ↦ .inl) fun _ ↦ rfl) fun _ ↦ ?_
    refine (keeps_getState i).bind fun currentState _ ↦ ?_
    cases (peers i).direction with
    | incoming =>
      by_cases hst : currentState = .connecting ∨ currentState = .helloReceived
      · simp only [hst, if_true]
        refine .andThen (keeps_sendMessage hinj i (.hello _)) fun r ↦ ?_
        cases r with
        | error e => exact .ret trivial
        | ok _ => exact .andThen (keeps_setState hinj ord i nofun) fun _ ↦ .ret trivial
      · simp only [hst, if_false]
        exact .ret trivial
    | outgoing =>
      by_cases hst : currentState = .helloSent
      · simp only [hst, if_true]
        exact .andThen (keeps_setState hinj ord i nofun) fun _ ↦ .ret trivial
      · simp only [hst, if_false]
        exact .ret trivial

theorem keeps_processKeepalive (hconfirmed : i ∈ O.confirmed) :
    Keeps O peers (fun _ ↦ True) ((peers i).processKeepalive ord) := by
  have hestablish : Keeps O peers (fun _ ↦ True)
      (do (peers i).setState ord .established; return .ok () : Code (Except Error Unit)) :=
    .andThen (keeps_setState hinj ord i fun _ ↦ hconfirmed) fun _ ↦ .ret trivial
  refine (keeps_getState i).bind fun st _ ↦ ?_
  cases (peers i).direction with
  | incoming =>
    by_cases hsent : st = .helloSent
    · simp only [hsent, if_true]
      exact hestablish
    · by_cases hst : st = .established
      · simp only [hst, if_true]
        exact .andThen (keeps_sendMessage hinj i (.keepalive hconfirmed)) fun r ↦ .ret trivial
      · simp only [hsent, hst, if_false]
        exact .ret trivial
  | outgoing =>
    by_cases hreceived : st = .helloReceived
    · simp only [hreceived, if_true]
      exact hestablish
    · simp only [hreceived, if_false]
      split <;> exact .ret trivial

/-- The routes of the table are told with a source other than the peer, if loop prevention asks
for one. -/
theorem keeps_sendExisting {vni : Vni} (hasked : vni ∈ O.askedBy peers (peers i).remoteAddr)
    {routes : List (Destination × NextHop × Finset PeerKey)}
    (hroutes : ∀ x ∈ routes, x.2.2 ≠ ∅ ∧ ∀ k ∈ x.2.2, (vni, x.1, x.2.1) ∈ O.announcedBy peers k) :
    Keeps O peers (fun _ ↦ True) ((peers i).sendExisting vni routes) := by
  induction routes with
  | nil => exact .ret trivial
  | cons x rest ih =>
    obtain ⟨dest, nh, sources⟩ := x
    obtain ⟨hne, hsources⟩ := hroutes _ List.mem_cons_self
    have hrest := ih fun x hx ↦ hroutes x (List.mem_cons_of_mem _ hx)
    refine .andThen (.reading_any _ _) fun isRemoteServer ↦ ?_
    simp only [isServerToServerLoop_eq, Bool.not_false, Bool.and_true, Bool.not_eq_true',
      decide_eq_false_iff_not]
    split
    · next hnat =>
      obtain ⟨k, hk⟩ := Finset.nonempty_iff_ne_empty.mpr hne
      have hmsg : O.Tellable peers i (updateMessage .add vni dest nh) := by
        refine .ofSource .add hasked (hsources k hk) fun htype hown ↦ hnat ⟨htype, ?_⟩
        rwa [hown] at hk
      refine .andThen (keeps_sendMessage hinj i hmsg) fun r ↦ ?_
      cases r with
      | ok _ => exact hrest
      | error e => exact .andThen (keeps_triggerShutdown hinj i) fun _ ↦ .ret trivial
    · exact hrest

theorem keeps_processSubscribe {sub : Pb.Subscription} (hsub : sub.vni ∈ O.asked i) :
    Keeps O peers (fun _ ↦ True) ((peers i).processSubscribe ord sub) := by
  have hasked : sub.vni ∈ O.askedBy peers (peers i).remoteAddr := ⟨i, rfl, hsub⟩
  have hadd : Keeps O peers (fun _ ↦ True)
      (writing .metalbondState (addSubscriber (peers i).remoteAddr sub.vni)) := by
    refine .writing fun s hs ↦ ⟨hs.withSubscribers fun vni addr haddr ↦ ?_, trivial⟩
    rw [valueAt_insert] at haddr
    split at haddr
    · next hvni =>
      rcases Finset.mem_insert.mp haddr with rfl | hold
      · exact hvni ▸ hasked
      · exact hvni ▸ hs.subscribers _ addr hold
    · exact hs.subscribers vni addr haddr
  refine hadd.andThen fun wasInserted ↦ ?_
  refine .andThen (keeps_writeCell hinj i (fun _ ↦ .inl) fun _ ↦ rfl) fun _ ↦ ?_
  split
  · have hread : Keeps O peers (fun destMap ↦ ∀ x ∈ routeList ord destMap,
        x.2.2 ≠ ∅ ∧ ∀ k ∈ x.2.2, (sub.vni, x.1, x.2.1) ∈ O.announcedBy peers k)
        (reading .metalbondState fun w ↦
          w.mb.routeTable.getDestinationsByVniWithPeer sub.vni) := by
      refine .reading fun s hs x hx ↦ ?_
      obtain ⟨hhas, hsources⟩ := (mem_routeList ord).mp hx
      rw [hsources]
      exact ⟨hhas, fun k hk ↦ (hs.routes _ k hk).2⟩
    exact hread.bind fun _ hroutes ↦ keeps_sendExisting hinj i hasked hroutes
  · exact .ret trivial

omit hinj in
/-- What is added may be announced, and what is taken out was. -/
theorem keeps_applyUpdate {action : UpdateAction} {vni : Vni} {dest : Destination} {nh : NextHop}
    {addr : SocketAddr}
    (hadd : action = .add → (vni, dest, nh) ∈ O.announcedBy peers (some addr)) :
    Keeps O peers
      (fun remaining ↦ ∀ n, remaining = .ok n →
        (vni, dest, nh) ∈ O.announcedBy peers (some addr))
      (update (applyUpdate action vni dest nh (some addr))) := by
  refine .update fun s hs ↦ ⟨?_, fun n hn ↦ ?_⟩
  · obtain ⟨t, ht⟩ := tableOnly_applyUpdate s action vni dest nh (some addr)
    have hsources (r : Route) : t.sources r = _ :=
      (congrArg (fun w : World ↦ w.mb.routeTable.sources r) ht).symm.trans
        (sources_applyUpdate action)
    rw [show (applyUpdate action vni dest nh (some addr) s.world).2 = _ from ht]
    refine hs.withTable fun r k hk ↦ ?_
    rw [hsources] at hk
    split at hk
    · next hr =>
      subst hr
      cases action with
      | add =>
        rcases Finset.mem_insert.mp hk with rfl | hold
        · exact ⟨nofun, hadd rfl⟩
        · exact hs.routes _ k hold
      | remove => exact hs.routes _ k (Finset.mem_of_mem_erase hk)
    · exact hs.routes r k hk
  · cases action with
    | add => exact hadd rfl
    | remove =>
      by_contra hout
      have hnone : some addr ∉ s.world.mb.routeTable.sources (vni, dest, nh) :=
        fun hmem ↦ hout (hs.routes _ _ hmem).2
      obtain ⟨e, he⟩ := RouteTable.removeNextHop_of_notMem hnone
      simp only [applyUpdate, removeNextHop, he] at hn
      cases hn

omit hinj in
theorem keeps_sendOn {action : UpdateAction} {vni : Vni} {dest : Destination} {nh : NextHop}
    {source : PeerKey} (h : (vni, dest, nh) ∈ O.announcedBy peers source) :
    Keeps O peers (fun _ ↦ True) (sendOn ⟨action, vni, dest, nh, source⟩) :=
  .sendOn fun _ hs ↦ hs.send h

omit hinj in
theorem keeps_removeLearned (vni : Vni) {routes : List (Destination × NextHop × Finset PeerKey)}
    (hroutes : ∀ x ∈ routes, ∀ k ∈ x.2.2, (vni, x.1, x.2.1) ∈ O.announcedBy peers k) :
    Keeps O peers (fun _ ↦ True) ((peers i).removeLearned vni routes) := by
  induction routes with
  | nil => exact .ret trivial
  | cons x rest ih =>
    obtain ⟨dest, nh, sources⟩ := x
    have hrest := ih fun x hx ↦ hroutes x (List.mem_cons_of_mem _ hx)
    unfold removeLearned
    split
    · next hown =>
      have hroute := hroutes _ List.mem_cons_self _ hown
      refine .andThen (.acquire ..) fun _ ↦ ?_
      have happly : Keeps O peers (fun _ ↦ True) (update fun w ↦
          applyUpdate .remove vni dest nh (some (peers i).remoteAddr) w) :=
        (keeps_applyUpdate fun _ ↦ hroute).mono fun _ _ ↦ trivial
      refine happly.andThen fun remaining ↦ ?_
      refine .andThen ?_ fun _ ↦ .andThen (.release ..) fun _ ↦ hrest
      cases remaining with
      | error e => exact .ret trivial
      | ok n =>
        cases n with
        | zero => exact (keeps_sendOn hroute).andThen fun _ ↦ .ret trivial
        | succ n => exact .ret trivial
    · exact hrest

theorem keeps_processUnsubscribe (unsub : Pb.Subscription) :
    Keeps O peers (fun _ ↦ True) ((peers i).processUnsubscribe ord unsub) := by
  have hremove : Keeps O peers (fun _ ↦ True)
      (writing .metalbondState (removeSubscriber (peers i).remoteAddr unsub.vni)) := by
    refine .writing fun s hs ↦ ⟨?_, trivial⟩
    have hvalue (vni : Vni) :=
      subscribers_removeSubscriber (peers i).remoteAddr unsub.vni vni s.world
    unfold removeSubscriber at hvalue ⊢
    split at hvalue
    · exact hs
    · refine hs.withSubscribers fun vni addr haddr ↦ ?_
      have hmem := (congrArg (addr ∈ ·) (hvalue vni)).mp haddr
      split at hmem
      · next hvni => exact hvni ▸ hs.subscribers _ addr (Finset.mem_of_mem_erase hmem)
      · exact hs.subscribers vni addr hmem
  refine hremove.andThen fun removed ↦ ?_
  refine .andThen (keeps_writeCell hinj i (fun _ ↦ .inl) fun _ ↦ rfl) fun _ ↦ ?_
  split
  · have hread : Keeps O peers (fun destMap ↦ ∀ x ∈ routeList ord destMap,
        ∀ k ∈ x.2.2, (unsub.vni, x.1, x.2.1) ∈ O.announcedBy peers k)
        (reading .metalbondState fun w ↦
          w.mb.routeTable.getDestinationsByVniWithPeer unsub.vni) := by
      refine .reading fun s hs x hx k hk ↦ ?_
      rw [((mem_routeList ord).mp hx).2] at hk
      exact (hs.routes _ k hk).2
    refine hread.bind fun _ hroutes ↦ ?_
    exact (keeps_removeLearned i unsub.vni hroutes).andThen fun _ ↦ .ret trivial
  · exact .ret trivial

omit hinj in
theorem keeps_processUpdate {msg : Pb.Update} (hadmits : O.Admits i (.update msg)) :
    Keeps O peers (fun _ ↦ True) ((peers i).processUpdate msg) := by
  unfold processUpdate
  split
  · exact .ret trivial
  · next action vni dest nh hparse =>
    have hsubscribed : Keeps O peers (fun b ↦ b = true → vni ∈ O.subscribable)
        (reading .metalbondState fun w ↦ decide (vni ∈ w.mb.mySubscriptions)) :=
      .reading fun s hs hb ↦ hs.subscriptions vni (of_decide_eq_true hb)
    refine hsubscribed.bind fun isSubscribedLocally hwanted ↦ ?_
    split
    · exact .ret trivial
    · next htaken =>
      have hadd : action = .add →
          (vni, dest, nh) ∈ O.announcedBy peers (some (peers i).remoteAddr) := by
        rintro rfl
        refine ⟨i, rfl, hadmits vni dest nh hparse, fun hdirection ↦ hwanted ?_⟩
        simpa [hdirection] using htaken
      refine .andThen (.acquire ..) fun _ ↦ (keeps_applyUpdate hadd).bind fun remaining hroute ↦ ?_
      refine .andThen ?_ fun _ ↦ .andThen (.release ..) fun _ ↦ .ret trivial
      cases remaining with
      | error e => exact .ret trivial
      | ok n =>
        have hsend (action : UpdateAction) : Keeps O peers (fun _ ↦ True)
            (sendOn ⟨action, vni, dest, nh, some (peers i).remoteAddr⟩) :=
          keeps_sendOn (hroute n rfl)
        simp only [sendChange]
        split
        · exact (hsend .remove).andThen fun _ ↦ .ret trivial
        · split
          · exact (hsend .add).andThen fun _ ↦ .ret trivial
          · exact .ret trivial

theorem keeps_process {msg : GeneratedMessage} (hadmits : O.Admits i msg) :
    Keeps O peers (fun _ ↦ True) ((peers i).process ord msg) := by
  cases msg with
  | hello hello => exact keeps_processHello hinj ord i hello
  | keepalive => exact keeps_processKeepalive hinj ord i hadmits
  | subscribe sub => exact keeps_processSubscribe hinj ord i hadmits
  | unsubscribe unsub => exact keeps_processUnsubscribe hinj ord i unsub
  | update msg => exact keeps_processUpdate i hadmits

theorem keeps_closeAndTrigger : Keeps O peers (fun _ ↦ True) ((peers i).closeAndTrigger ord) :=
  .andThen (keeps_setState hinj ord i nofun) fun _ ↦ keeps_triggerShutdown hinj i

theorem keeps_startKeepalive (later : Instant) (t : Timers) :
    Keeps O peers (fun _ ↦ True) ((peers i).startKeepalive later t) := by
  refine (keeps_getState i).bind fun state hstate ↦ ?_
  split
  · next hest =>
    split
    · exact .ret trivial
    · split
      · refine .andThen (keeps_sendMessage hinj i (.keepalive (hstate hest.1))) fun r ↦ ?_
        exact (keeps_shutdownOnError hinj i r).andThen fun _ ↦ .ret trivial
      · exact .ret trivial
  · exact .ret trivial

theorem keeps_handleMessage (now later : Instant) (t : Timers) {msg : GeneratedMessage}
    (hadmits : O.Admits i msg) :
    Keeps O peers (fun _ ↦ True) ((peers i).handleMessage ord now later t msg) := by
  unfold handleMessage
  split
  · exact .ret trivial
  · refine (keeps_process hinj ord i hadmits).andThen fun r ↦ ?_
    cases r with
    | error e => exact (keeps_closeAndTrigger hinj ord i).andThen fun _ ↦ .ret trivial
    | ok _ => exact keeps_startKeepalive hinj i later _

theorem keeps_takeOutgoing : Keeps O peers (fun _ ↦ True) (modify (peers i).takeOutgoing) := by
  refine .modify fun s hs ↦ ?_
  unfold takeOutgoing
  cases hrecv : (s.world.cell (peers i).id).tx.recv with
  | none => exact hs
  | some x =>
    have hhistory := (Mailbox.history_of_recv hrecv).1
    refine hs.setCell hinj i (hs.established i) fun msg hmsg ↦ hs.told i msg ?_
    have hmem : msg ∈ x.2.history := hmsg
    rwa [hhistory] at hmem

theorem keeps_selectRound (t : Timers) {r : Round}
    (hheard : ∀ msg, r.won = .frame (.message msg) → O.Admits i msg) :
    Keeps O peers (fun _ ↦ True) ((peers i).selectRound ord r t) := by
  have hclose (t : Timers) : Keeps O peers (fun _ ↦ True)
      (do (peers i).closeAndTrigger ord; return .again t : Code Next) :=
    (keeps_closeAndTrigger hinj ord i).andThen fun _ ↦ .ret trivial
  unfold selectRound handleBranch
  split
  · refine .andThen (keeps_modifyCell hinj i (fun _ ↦ .inl) fun _ ↦ rfl) fun _ ↦ ?_
    exact .andThen (keeps_setState hinj ord i nofun) fun _ ↦ .ret trivial
  · next hwon => exact keeps_handleMessage hinj ord i _ _ _ (hheard _ hwon)
  · exact hclose _
  · exact hclose _
  · refine (keeps_takeOutgoing hinj i).andThen fun _ ↦ ?_
    split
    · exact .ret trivial
    · exact hclose _
  · refine (keeps_getState i).bind fun state hstate ↦ ?_
    split
    · next htick =>
      refine .andThen (keeps_sendMessage hinj i (.keepalive (hstate htick.2))) fun r ↦ ?_
      exact (keeps_shutdownOnError hinj i r).andThen fun _ ↦ .ret trivial
    · exact .ret trivial
  · exact hclose _

theorem keeps_startPeer : Keeps O peers (fun _ ↦ True) ((peers i).startPeer ord) := by
  unfold startPeer
  split
  · refine .andThen (.reading_any _ _) fun isServer ↦ ?_
    refine .andThen (keeps_sendMessage hinj i (.hello _)) fun r ↦ ?_
    cases r with
    | error e => exact .andThen (keeps_setState hinj ord i nofun) fun _ ↦ .ret trivial
    | ok _ => exact .andThen (keeps_setState hinj ord i nofun) fun _ ↦ .ret trivial
  · exact .andThen (keeps_setState hinj ord i nofun) fun _ ↦ .ret trivial

omit i

theorem keeps_forward {u : InternalUpdate} (hu : u.route ∈ O.announcedBy peers u.sourcePeer)
    {p : Peer} (hasked : u.vni ∈ O.askedBy peers p.remoteAddr) (hp : ∃ i, peers i = p) :
    Keeps O peers (fun _ ↦ True) (forward u p) := by
  obtain ⟨i, rfl⟩ := hp
  have hsource : Keeps O peers (fun _ ↦ True) (sourceIsServer u.sourcePeer) := by
    cases u.sourcePeer with
    | none => exact .gets_any _
    | some addr =>
      refine .andThen (.gets_any _) fun found ↦ ?_
      cases found with
      | none => exact .ret trivial
      | some source => exact .reading_any _ _
  unfold forward
  split
  · exact .ret trivial
  · next hloop =>
    refine hsource.andThen fun source ↦ .andThen (.reading_any _ _) fun target ↦ ?_
    split
    · exact .ret trivial
    · have hmsg : O.Tellable peers i (updateMessage u.action u.vni u.destination u.nextHop) :=
        .ofSource _ hasked hu fun hnat hown ↦ hloop ⟨hown.symm, hnat⟩
      exact .andThen (keeps_sendMessage hinj i hmsg) fun _ ↦ .ret trivial

theorem keeps_forwardAll {u : InternalUpdate} (hu : u.route ∈ O.announcedBy peers u.sourcePeer)
    {targets : List Peer}
    (htargets : ∀ p ∈ targets, u.vni ∈ O.askedBy peers p.remoteAddr ∧ ∃ i, peers i = p) :
    Keeps O peers (fun _ ↦ True) (forwardAll u targets) := by
  induction targets with
  | nil => exact .ret trivial
  | cons p rest ih =>
    obtain ⟨hasked, hp⟩ := htargets p List.mem_cons_self
    refine (keeps_forward hinj hu hasked hp).andThen fun _ ↦ ?_
    exact ih fun q hq ↦ htargets q (List.mem_cons_of_mem _ hq)

theorem keeps_distribute {u : InternalUpdate} (hu : u.route ∈ O.announcedBy peers u.sourcePeer) :
    Keeps O peers (fun _ ↦ True) (distribute ord u) := by
  have hcall : Keeps O peers (fun _ ↦ True) (callClient (clientCall u)) := by
    refine .update fun s hs ↦ ⟨hs.called ?_, trivial⟩
    unfold clientCall
    cases u.action <;> exact ⟨u.sourcePeer, hu⟩
  have hlook : Keeps O peers (fun targets ↦
      ∀ p ∈ targets, u.vni ∈ O.askedBy peers p.remoteAddr ∧ ∃ i, peers i = p)
      (gets fun w ↦ peersToNotify ord u.vni w.mb) := by
    refine .gets fun s hs p hp ↦ ?_
    obtain ⟨addr, haddr, hlookup⟩ := List.mem_filterMap.mp hp
    obtain ⟨rfl, hlisted⟩ := hs.listed addr p hlookup
    exact ⟨hs.subscribers _ _ ((ord.mem_list ..).mp haddr), hlisted⟩
  refine .andThen (.acquire ..) fun _ ↦ hcall.andThen fun _ ↦ hlook.bind fun targets htargets ↦ ?_
  exact (keeps_forwardAll hinj hu htargets).andThen fun _ ↦ .andThen (.release ..) fun _ ↦
    .ret trivial

omit hinj in
theorem keeps_notifyEstablished {send : Peer → Code (Except Error Unit)}
    (hsend : ∀ i ∈ O.confirmed, Keeps O peers (fun _ ↦ True) (send (peers i)))
    {targets : List Peer} (htargets : ∀ p ∈ targets, ∃ i, peers i = p) :
    Keeps O peers (fun _ ↦ True) (notifyEstablished send targets) := by
  induction targets with
  | nil => exact .ret trivial
  | cons p rest ih =>
    obtain ⟨i, rfl⟩ := htargets p List.mem_cons_self
    have hrest := ih fun q hq ↦ htargets q (List.mem_cons_of_mem _ hq)
    refine (keeps_getState i).bind fun state hstate ↦ ?_
    split
    · next hest => exact (hsend i (hstate hest)).andThen fun _ ↦ hrest
    · exact hrest

omit hinj in
theorem keeps_announceSubscription {vni : Vni} (hwanted : vni ∈ O.subscribable)
    {send : Peer → Code (Except Error Unit)}
    (hsend : ∀ i ∈ O.confirmed, Keeps O peers (fun _ ↦ True) (send (peers i)))
    {targets : List Peer} (htargets : ∀ p ∈ targets, ∃ i, peers i = p) :
    Keeps O peers (fun _ ↦ True) (announceSubscription vni send targets) := by
  refine (keeps_notifyEstablished hsend htargets).andThen fun _ ↦ .andThen (.acquire ..) fun _ ↦ ?_
  refine .andThen (.update fun s hs ↦ ⟨hs.called hwanted, trivial⟩) fun _ ↦ ?_
  exact .andThen (.release ..) fun _ ↦ .ret trivial

omit hinj in
theorem keeps_peerList : Keeps O peers (fun targets ↦ ∀ p ∈ targets, ∃ i, peers i = p)
    (gets fun w ↦ peerList ord w.mb.peers) := by
  refine .gets fun s hs p hp ↦ ?_
  obtain ⟨addr, -, hlookup⟩ := List.mem_filterMap.mp hp
  exact (hs.listed addr p hlookup).2

theorem keeps_subscribe {vni : Vni} (hwanted : vni ∈ O.wanted) :
    Keeps O peers (fun _ ↦ True) (subscribe ord vni) := by
  have hmode : Keeps O peers (fun isServer ↦ isServer = O.server) (gets fun w ↦ w.mb.isServer) :=
    .gets fun _ hs ↦ hs.mode
  refine .andThen (.acquire ..) fun _ ↦ hmode.bind fun isServer hserver ↦ ?_
  split
  · exact .andThen (.release ..) fun _ ↦ .ret trivial
  · next hclient =>
    have hsubscribable : vni ∈ O.subscribable :=
      ⟨hserver ▸ Bool.eq_false_of_not_eq_true hclient, hwanted⟩
    have hinsert : Keeps O peers (fun _ ↦ True) (update fun w ↦
        (decide (vni ∉ w.mb.mySubscriptions), w.modifyMb fun mb ↦
          { mb with mySubscriptions := insert vni mb.mySubscriptions })) := by
      refine .update fun s hs ↦ ⟨hs.withSubscriptions fun v hv ↦ ?_, trivial⟩
      rcases Finset.mem_insert.mp hv with rfl | hold
      · exact hsubscribable
      · exact hs.subscriptions v hold
    refine hinsert.andThen fun inserted ↦ ?_
    split
    · refine (keeps_peerList ord).bind fun targets htargets ↦ .andThen (.release ..) fun _ ↦ ?_
      refine keeps_announceSubscription hsubscribable (fun i hconfirmed ↦ ?_) htargets
      exact keeps_sendMessage hinj i (.subscribe vni hconfirmed hsubscribable)
    · exact .andThen (.release ..) fun _ ↦ .ret trivial

theorem keeps_unsubscribe (vni : Vni) : Keeps O peers (fun _ ↦ True) (unsubscribe ord vni) := by
  have herase : Keeps O peers (fun removed ↦ removed = true → vni ∈ O.subscribable) (update fun w ↦
      (decide (vni ∈ w.mb.mySubscriptions), w.modifyMb fun mb ↦
        { mb with mySubscriptions := mb.mySubscriptions.erase vni })) := by
    refine .update fun s hs ↦ ⟨hs.withSubscriptions fun v hv ↦ ?_, fun hb ↦ ?_⟩
    · exact hs.subscriptions v (Finset.mem_of_mem_erase hv)
    · exact hs.subscriptions vni (of_decide_eq_true hb)
  refine .andThen (.acquire ..) fun _ ↦ .andThen (.gets_any _) fun isServer ↦ ?_
  split
  · exact .andThen (.release ..) fun _ ↦ .ret trivial
  · refine herase.bind fun removed hremoved ↦ ?_
    split
    · next hb =>
      have hwanted := hremoved hb
      refine (keeps_peerList ord).bind fun targets htargets ↦ .andThen (.release ..) fun _ ↦ ?_
      refine keeps_announceSubscription hwanted (fun i hconfirmed ↦ ?_) htargets
      exact keeps_sendMessage hinj i (.unsubscribe vni hconfirmed hwanted)
    · exact .andThen (.release ..) fun _ ↦ .ret trivial

section Announcing

variable {vni : Vni} {dest : Destination} {nh : NextHop}

omit hinj

theorem keeps_announceRoute (h : (vni, dest, nh) ∈ O.own) :
    Keeps O peers (fun _ ↦ True) (announceRoute vni dest nh) := by
  have hadd : Keeps O peers (fun _ ↦ True) (modify (addAnnouncement vni dest nh)) := by
    refine .modify fun s hs ↦ hs.withAnnouncements fun r hr ↦ ?_
    rw [RouteTable.sources_addNextHop] at hr
    split at hr
    · next heq => exact heq ▸ h
    · exact hs.announcements r hr
  have hsend : Keeps O peers (fun _ ↦ True) (sendOn ⟨.add, vni, dest, nh, none⟩) := keeps_sendOn h
  refine .andThen (.acquire ..) fun _ ↦ hadd.andThen fun _ ↦ hsend.andThen fun sent ↦ ?_
  exact .andThen (.release ..) fun _ ↦ .ret trivial

theorem keeps_withdrawRoute : Keeps O peers (fun _ ↦ True) (withdrawRoute vni dest nh) := by
  have hremove : Keeps O peers
      (fun remaining ↦ ∀ n, remaining = .ok n → (vni, dest, nh) ∈ O.own)
      (update (removeAnnouncement vni dest nh)) := by
    refine .update fun s hs ↦ ?_
    by_cases hmem : none ∈ s.world.mb.myAnnouncements.sources (vni, dest, nh)
    · simp only [removeAnnouncement, RouteTable.removeNextHop_of_mem hmem]
      refine ⟨hs.withAnnouncements fun r hr ↦ ?_, fun _ _ ↦ hs.announcements _ hmem⟩
      rw [RouteTable.sources_store] at hr
      split at hr
      · next heq => exact absurd rfl (Finset.mem_erase.mp hr).1
      · exact hs.announcements r hr
    · obtain ⟨e, he⟩ := RouteTable.removeNextHop_of_notMem hmem
      simp only [removeAnnouncement, he]
      exact ⟨hs, nofun⟩
  refine .andThen (.acquire ..) fun _ ↦ hremove.bind fun remaining hroute ↦ ?_
  cases remaining with
  | error e => exact .andThen (.release ..) fun _ ↦ .ret trivial
  | ok n =>
    have hsend : Keeps O peers (fun _ ↦ True) (sendOn ⟨.remove, vni, dest, nh, none⟩) :=
      keeps_sendOn (hroute n rfl)
    cases n with
    | zero => exact hsend.andThen fun sent ↦ .andThen (.release ..) fun _ ↦ .ret trivial
    | succ n => exact .andThen (.release ..) fun _ ↦ .ret trivial

end Announcing

omit hinj in
theorem keeps_addPeer (parse : String → Option SocketAddr) (serverAddr : String) :
    Keeps O peers (fun _ ↦ True) (addPeer parse serverAddr) := by
  unfold addPeer
  split
  · exact .ret trivial
  · next addr _ =>
    refine .andThen (.reading_any _ _) fun isServer ↦ ?_
    split
    · exact .ret trivial
    · refine .andThen (.acquire ..) fun _ ↦ .andThen (.gets_any _) fun known ↦ ?_
      split
      · exact .andThen (.release ..) fun _ ↦ .ret trivial
      · have hspawn : Keeps O peers (fun _ ↦ True) (modify (spawnManager addr)) :=
          .modify fun _ hs ↦ { hs with listed := hs.listed }
        exact hspawn.andThen fun _ ↦ .andThen (.release ..) fun _ ↦ .ret trivial

theorem keeps_removePeer (parse : String → Option SocketAddr) (addrStr : String) :
    Keeps O peers (fun _ ↦ True) (removePeer parse ord addrStr) := by
  unfold removePeer
  split
  · exact .ret trivial
  · next addr _ =>
    have habort : Keeps O peers (fun _ ↦ True) (modify (abortManager addr)) := by
      refine .modify fun s hs ↦ ?_
      unfold abortManager
      split
      · exact hs
      · exact { hs with listed := hs.listed }
    have hshutdown : Keeps O peers (fun _ ↦ True) (modify (shutdownPeer addr)) := by
      refine .modify fun s hs ↦ ?_
      unfold shutdownPeer
      split
      · exact hs
      · next p hlookup =>
        obtain ⟨i, rfl⟩ := (hs.listed addr p hlookup).2
        exact hs.modifyCell hinj i (fun _ ↦ .inl) fun _ ↦ rfl
    refine .andThen (.acquire ..) fun _ ↦ habort.andThen fun _ ↦ hshutdown.andThen fun _ ↦ ?_
    refine (keeps_removeRoutesFromPeer ord addr).bind fun removed hremoved ↦ ?_
    exact (keeps_sendRemovals hremoved).andThen fun _ ↦ .andThen (.release ..) fun _ ↦ .ret trivial

omit ord

theorem Work.keeps {κ : Type} {Heard : ι → GeneratedMessage → Prop} {a : Actor ι κ}
    {o : Option InternalUpdate} {t : Code Unit} (h : Work Heard O.wanted O.own peers a o t)
    (hheard : ∀ i msg, Heard i msg → O.Admits i msg)
    (ho : ∀ u ∈ o, u.route ∈ O.announcedBy peers u.sourcePeer) :
    Keeps O peers (fun _ ↦ True) t := by
  have hdone {α : Type} {t : Code α} (ht : Keeps O peers (fun _ ↦ True) t) :
      Keeps O peers (fun _ ↦ True) (do let _ ← t; return () : Code Unit) :=
    ht.andThen fun _ ↦ .ret trivial
  have herase (addr : SocketAddr) : Keeps O peers (fun _ ↦ True) (erasePeer addr) := by
    refine .writing fun s hs ↦ ⟨hs.withPeers fun addr' p hp ↦ ?_, trivial⟩
    by_cases haddr : addr' = addr
    · rw [haddr, Finmap.lookup_erase] at hp
      cases hp
    · rw [Finmap.lookup_erase_ne haddr] at hp
      exact hs.listed addr' p hp
  cases h with
  | connect i ord =>
    have hinsert : Keeps O peers (fun _ ↦ True) (insertPeer (peers i)) := by
      refine .writing fun s hs ↦ ⟨hs.withPeers fun addr p hp ↦ ?_, trivial⟩
      by_cases haddr : addr = (peers i).remoteAddr
      · rw [haddr, Finmap.lookup_insert] at hp
        cases hp
        exact ⟨haddr.symm, i, rfl⟩
      · rw [Finmap.lookup_insert_of_ne _ haddr] at hp
        exact hs.listed addr p hp
    exact hinsert.andThen fun _ ↦ hdone (keeps_startPeer hinj ord i)
  | round i ord r t h =>
    exact hdone (keeps_selectRound hinj ord i t fun msg hwon ↦ hheard i msg (h msg hwon))
  | disconnect i =>
    exact .andThen (keeps_modifyCell hinj i (fun _ ↦ .inl) fun _ ↦ rfl) fun _ ↦ herase _
  | call k h =>
    cases h with
    | subscribe ord vni hwanted => exact hdone (keeps_subscribe hinj ord hwanted)
    | unsubscribe ord vni => exact hdone (keeps_unsubscribe hinj ord vni)
    | announceRoute vni dest nh hown => exact hdone (keeps_announceRoute hown)
    | withdrawRoute vni dest nh => exact hdone keeps_withdrawRoute
    | addPeer parse serverAddr => exact hdone (keeps_addPeer parse serverAddr)
    | removePeer parse ord addrStr => exact hdone (keeps_removePeer hinj ord parse addrStr)
  | distribute ord u => exact hdone (keeps_distribute hinj ord (ho u rfl))

theorem upholds_work (κ : Type) {Heard : ι → GeneratedMessage → Prop}
    (hheard : ∀ i msg, Heard i msg → O.Admits i msg) :
    Upholds (Grounded O peers) (Work Heard O.wanted O.own peers : Actor ι κ → _) where
  recv hs hrecv :=
    hs.withChan fun u hu ↦ hs.updates u (by rwa [Channel.history_recv hrecv] at hu)
  starts hs ho hwork :=
    hwork.keeps hinj hheard fun u hu ↦ hs.updates u (List.mem_append_right _ (ho u hu))

end Code

section Runs

variable {ι κ : Type} [DecidableEq ι] [DecidableEq κ] {O : Outside ι} {peers : ι → Peer}
variable {c₀ c : Pool (Actor ι κ) Lock World InternalUpdate Unit}

structure Begins (peers : ι → Peer) (server : Bool)
    (c : Pool (Actor ι κ) Lock World InternalUpdate Unit) : Prop where
  idle : ∀ a, c.Idle a
  unheard : Unheard peers server c.shared

theorem grounded_of_run (hids : Function.Injective fun i ↦ (peers i).id)
    (hbegins : Begins peers O.server c₀)
    (hrun : Run (Pool.Step (Work O.Admits O.wanted O.own peers)) c₀ c) :
    Grounded O peers c.shared :=
  ((Pool.kept_of_idle hbegins.idle hbegins.unheard.grounded).run
    (upholds_work hids κ fun _ _ h ↦ h) hrun).now

/-- Every route that a node knows, passes on or installs was announced by the source under which
it keeps it, and what its application does not want it learns from none of the connections that
it opened itself. -/
theorem nothing_made_up (hids : Function.Injective fun i ↦ (peers i).id)
    (hbegins : Begins peers O.server c₀)
    (hrun : Run (Pool.Step (Work O.Admits O.wanted O.own peers)) c₀ c) :
    (∀ r k, k ∈ c.shared.world.mb.routeTable.sources r → k ≠ none ∧ r ∈ O.announcedBy peers k) ∧
      (∀ u ∈ c.shared.chan.history, u.route ∈ O.announcedBy peers u.sourcePeer) ∧
      ∀ call ∈ c.shared.world.client.calls, O.Knows peers call := by
  have hgrounded := grounded_of_run hids hbegins hrun
  exact ⟨hgrounded.routes, hgrounded.updates, hgrounded.calls⟩

/-- Whatever a node puts on the queue of a peer, it has reason to tell it. -/
theorem told_with_reason (hids : Function.Injective fun i ↦ (peers i).id)
    (hbegins : Begins peers O.server c₀)
    (hrun : Run (Pool.Step (Work O.Admits O.wanted O.own peers)) c₀ c) (i : ι) :
    ∀ msg ∈ ((peers i).cellOf c.shared).tx.history, O.Tellable peers i msg :=
  (grounded_of_run hids hbegins hrun).told i

end Runs

open SubscriptionRecords (acceptors tasks)

def exchange : Outside Bool where
  server := true
  confirmed := ∅
  asked b := {vni | b = true ∧ vni = 100}
  announced b := {r | b = false ∧ r = Sample.route}
  wanted := ∅
  own := ∅

def learnedNode : Node :=
  (exec [] ((acceptors false).processUpdate (Sample.update .add)) (Sample.node true)).shared

theorem admits_update : exchange.Admits false (.update (Sample.update .add)) := by
  intro vni dest nh hparse
  have hsample : parseUpdate (Sample.update .add) = .ok (.add, Sample.route) :=
    parseUpdate_updateMessage ..
  cases hsample.symm.trans hparse
  exact ⟨rfl, rfl⟩

theorem begins_sample : Begins acceptors true (tasks (Sample.node true)) :=
  ⟨fun _ ↦ ⟨(), rfl⟩, ⟨rfl, fun _ ↦ rfl, rfl, rfl, rfl, rfl, rfl, rfl, rfl⟩⟩

theorem run_learned : Run (Pool.Step (Work exchange.Admits exchange.wanted exchange.own acceptors))
    (tasks (Sample.node true))
    ((tasks (Sample.node true)).set (.connection false) ⟨[], .ret ()⟩ learnedNode) := by
  let r : Round := ⟨false, .frame (.message (.update (Sample.update .add))), 0, 0⟩
  refine Pool.run_whole (fun _ ↦ rfl) ⟨(), rfl⟩ (.round false .toList r .off ?_) rfl
  intro msg hmsg
  cases hmsg
  exact admits_update

theorem nothing_made_up_sample : learnedNode.world.mb.routeTable.Has Sample.route ∧
    ∀ r k, k ∈ learnedNode.world.mb.routeTable.sources r →
      k ≠ none ∧ r ∈ exchange.announcedBy acceptors k := by
  refine ⟨by decide, ?_⟩
  have hids : Function.Injective fun b ↦ (acceptors b).id := by decide
  exact (nothing_made_up hids begins_sample run_learned).1

def asking : Round := ⟨false, .frame (.message (.subscribe ⟨100⟩)), 0, 0⟩

theorem exec_asking : ∃ s,
    exec [] ((acceptors true).selectRound .toList asking .off) learnedNode =
      .done (.again .off) [] s ∧
    updateMessage .add 100 Sample.destination Sample.nextHop ∈
      ((acceptors true).cellOf s).tx.history := by
  let p := acceptors true
  obtain ⟨tx, hsend, htx⟩ := @PeerCell.sendRoutes_of_room (p.cellOf (p.subscribed 100 learnedNode))
    [Sample.route] rfl (by decide)
  have hunlisted : p.remoteAddr ∉ valueAt learnedNode.world.mb.subscribers 100 :=
    Finset.notMem_empty _
  have hdone := exec_processSubscribe .toList p learnedNode ⟨100⟩
  rw [if_neg hunlisted, Sample.snapshotFor_learned .toList p rfl, hsend] at hdone
  refine ⟨_, Connection.exec_selectRound_kept rfl rfl hdone ?_, ?_⟩
  · rw [cellOf_withCell]
    exact fun h ↦ nomatch h.1
  · rw [cellOf_withCell]
    change _ ∈ tx.history
    rw [htx, Channel.history_pushAll]
    exact List.mem_append_right _ List.mem_cons_self

/-- The peer that asked for the VNI is told the route. -/
theorem told_with_reason_sample : ∃ s : Node, ∃ msg ∈ ((acceptors true).cellOf s).tx.history,
    msg = updateMessage .add 100 Sample.destination Sample.nextHop ∧
      exchange.Tellable acceptors true msg := by
  obtain ⟨s, hround, htold⟩ := exec_asking
  have hids : Function.Injective fun b ↦ (acceptors b).id := by decide
  have hheard : ∀ msg, asking.won = .frame (.message msg) → exchange.Admits true msg := by
    intro msg hmsg
    cases hmsg
    exact ⟨rfl, rfl⟩
  have hexec := (exec_bind ..).trans (congrArg (Outcome.andThen · fun _ held s ↦
    exec held (Pure.pure () : Code Unit) s) hround)
  have hrun := run_learned.trans (Pool.run_whole (Pool.unguarded_set (fun _ ↦ rfl) _ _ _) ⟨(), rfl⟩
    (.round true .toList asking .off hheard) hexec)
  refine ⟨s, _, htold, rfl, ?_⟩
  exact told_with_reason hids begins_sample hrun true _ htold

end MetalBond.Provenance
