import MetalBond.Announcements
import MetalBond.Deliveries
import MetalBond.Provenance

namespace MetalBond

open Async Task Collections HashMap Peer
open SubscriptionRecords (Actor)
open Provenance

/-- Nodes that run this code, and which connection of which node is the other end of each. Only
a client opens connections, and only a server accepts them. -/
structure Topology (ν ι : Type) where
  server : ν → Bool
  peers : ν → ι → Peer
  far : ν → ι → ν × ι
  distinct : ∀ n, Function.Injective fun i ↦ (peers n i).id
  opens : ∀ n i, server n = false → (peers n i).direction = .outgoing
  ends : ∀ n i, server (far n i).1 = !server n

namespace Topology

variable {ν ι κ : Type} (T : Topology ν ι)

/-- What the other end of a connection has put on its queue so far. -/
def said (shared : ν → Node) (n : ν) (i : ι) : List GeneratedMessage :=
  ((T.peers (T.far n i).1 (T.far n i).2).cellOf (shared (T.far n i).1)).tx.history

/-- A connection hears, in any order and any number of times, what its other end has said, and
`stray` messages of other origin. -/
def Starts (stray : Set GeneratedMessage) (wanted : ν → Set Vni) (own : ν → Set Route)
    (shared : ν → Node) (n : ν) : Actor ι κ → Option InternalUpdate → Code Unit → Prop :=
  Work (fun i msg ↦ msg ∈ stray ∨ msg ∈ T.said shared n i) (wanted n) (own n) (T.peers n)

variable [DecidableEq ν] [DecidableEq ι] [DecidableEq κ] {T}
variable {stray : Set GeneratedMessage} {wanted : ν → Set Vni} {own : ν → Set Route}
variable {c₀ c : ν → Pool (Actor ι κ) Lock World InternalUpdate Unit}

/-- If what one end has reason to tell is what the other end may hear, nothing else is ever told. -/
theorem grounded_of_run {O : ν → Outside ι} (hmode : ∀ n, (O n).server = T.server n)
    (hwanted : ∀ n, (O n).wanted = wanted n) (hown : ∀ n, (O n).own = own n)
    (hstray : ∀ n i, ∀ msg ∈ stray, (O n).Admits i msg)
    (hlinks : ∀ n i msg, (O (T.far n i).1).Tellable (T.peers (T.far n i).1) (T.far n i).2 msg →
      (O n).Admits i msg)
    (hbegins : ∀ n, Begins (T.peers n) (T.server n) (c₀ n))
    (hrun : Run (Network.Step (T.Starts stray wanted own)) c₀ c) (n : ν) :
    Grounded (O n) (T.peers n) (c n).shared := by
  have hkept (n : ν) : (c₀ n).Kept (Grounded (O n) (T.peers n)) :=
    Pool.kept_of_idle (hbegins n).idle (hmode n ▸ (hbegins n).unheard).grounded
  refine (Network.kept_of_run hkept (fun shared hshared n ↦ ?_) hrun n).now
  rw [Starts, ← hwanted, ← hown]
  refine upholds_work (T.distinct n) κ fun i msg hheard ↦ ?_
  rcases hheard with hfrom | hsaid
  · exact hstray n i msg hfrom
  · exact hlinks n i msg ((hshared _).told _ msg hsaid)

/-- What is announced at the other end of a connection: its own routes, and if it is a server
those of its clients, this one among them. A route with a NAT hop counts only where a client with
another address announces it. -/
def reach (T : Topology ν ι) (own : ν → Set Route) (n : ν) (i : ι) : Set Route :=
  {r | r ∈ own (T.far n i).1 ∨ T.server n = false ∧ ∃ j, r ∈ own (T.far (T.far n i).1 j).1 ∧
    (r.2.2.hopType = .nat → (T.peers (T.far n i).1 j).remoteAddr ≠
      (T.peers (T.far n i).1 (T.far n i).2).remoteAddr)}

/-- All that a network of nodes may say, where anyone may send a KEEPALIVE. -/
def outside (T : Topology ν ι) (wanted : ν → Set Vni) (own : ν → Set Route) (n : ν) :
    Outside ι where
  server := T.server n
  confirmed := Set.univ
  asked i := {vni | T.server n = true ∧ vni ∈ wanted (T.far n i).1}
  announced i := T.reach own n i
  wanted := wanted n
  own := own n

omit [DecidableEq ν] [DecidableEq ι] in
theorem mem_reach_of_tellable {n : ν} {i : ι} {msg : GeneratedMessage} {action : UpdateAction}
    {r : Route} (htell : (T.outside wanted own (T.far n i).1).Tellable (T.peers (T.far n i).1)
      (T.far n i).2 msg) (hroute : msg.route? = some (action, r)) : r ∈ T.reach own n i := by
  rcases htell.reason hroute with hown | ⟨⟨j, -, hserver, -⟩, addr, ⟨j', rfl, hk, -⟩, hnat⟩
  · exact .inl hown
  · have hclient : T.server n = false := by
      rw [show T.server (T.far n i).1 = _ from T.ends n i] at hserver
      simpa using hserver
    rcases hk with hfar | ⟨hnot, -⟩
    · exact .inr ⟨hclient, j', hfar, hnat⟩
    · rw [T.ends, hclient] at hnot
      cases hnot

theorem grounded_outside (hbegins : ∀ n, Begins (T.peers n) (T.server n) (c₀ n))
    (hrun : Run (Network.Step (T.Starts {.keepalive} wanted own)) c₀ c) (n : ν) :
    Grounded (T.outside wanted own n) (T.peers n) (c n).shared := by
  refine grounded_of_run (fun _ ↦ rfl) (fun _ ↦ rfl) (fun _ ↦ rfl) (fun n i msg hmsg ↦ ?_)
    (fun n i msg htell ↦ ?_) hbegins hrun n
  · rw [Set.mem_singleton_iff.mp hmsg]
    trivial
  · cases msg with
    | hello hello => trivial
    | keepalive => trivial
    | unsubscribe unsub => trivial
    | subscribe sub =>
      cases htell with
      | subscribe vni _ hsub =>
        obtain ⟨hclient, hwanted⟩ := hsub
        have hserver : T.server (T.far n i).1 = _ := T.ends n i
        exact ⟨by simpa using hserver.symm.trans hclient, hwanted⟩
    | update msg =>
      intro vni dest nh hparse
      have hroute : (GeneratedMessage.update msg).route? = some (.add, vni, dest, nh) :=
        congrArg Except.toOption hparse
      exact mem_reach_of_tellable htell hroute

/-- Routes travel two hops: a server knows those of its clients, a client those of its servers and
of their clients, where it may get its own back unless they have a NAT hop, and a client passes
nothing on. Links lose, delay, reorder and repeat messages. -/
theorem two_hops (hbegins : ∀ n, Begins (T.peers n) (T.server n) (c₀ n))
    (hrun : Run (Network.Step (T.Starts {.keepalive} wanted own)) c₀ c) (n : ν) :
    (T.server n = true → ∀ r k, k ∈ (c n).shared.world.mb.routeTable.sources r →
      ∃ i, k = some (T.peers n i).remoteAddr ∧ r ∈ own (T.far n i).1) ∧
    (T.server n = false → ∀ r, (c n).shared.world.mb.routeTable.Has r →
      ∃ i, r ∈ own (T.far n i).1 ∨ ∃ j, r ∈ own (T.far (T.far n i).1 j).1 ∧
        (r.2.2.hopType = .nat → (T.peers (T.far n i).1 j).remoteAddr ≠
          (T.peers (T.far n i).1 (T.far n i).2).remoteAddr)) ∧
    (T.server n = false → ∀ i, ∀ msg ∈ ((T.peers n i).cellOf (c n).shared).tx.history,
      ∀ action r, msg.route? = some (action, r) → r ∈ own n) := by
  have hgrounded := grounded_outside hbegins hrun n
  refine ⟨fun hserver r k hk ↦ ?_, fun hclient r hr ↦ ?_, fun hclient i msg hmsg action r hr ↦ ?_⟩
  · obtain ⟨hsome, hby⟩ := hgrounded.routes r k hk
    obtain ⟨addr, rfl⟩ := Option.ne_none_iff_exists'.mp hsome
    obtain ⟨i, rfl, hfar | ⟨hnot, -⟩, -⟩ := hby
    · exact ⟨i, rfl, hfar⟩
    · cases hserver.symm.trans hnot
  · obtain ⟨k, hk⟩ := Finset.nonempty_iff_ne_empty.mpr hr
    obtain ⟨hsome, hby⟩ := hgrounded.routes r k hk
    obtain ⟨addr, rfl⟩ := Option.ne_none_iff_exists'.mp hsome
    obtain ⟨i, -, hreach, -⟩ := hby
    exact ⟨i, hreach.imp_right fun h ↦ h.2⟩
  · rcases (hgrounded.told i msg hmsg).reason hr with hown | ⟨⟨j, -, hserver, -⟩, -⟩
    · exact hown
    · cases hclient.symm.trans hserver

/-- A route goes over a connection only if the application at the other end has asked for its VNI
or the one at this end announces it, and a client installs only what its application announces
itself or has asked for and learned. -/
theorem tenants_apart (hbegins : ∀ n, Begins (T.peers n) (T.server n) (c₀ n))
    (hrun : Run (Network.Step (T.Starts {.keepalive} wanted own)) c₀ c) (n : ν) :
    (∀ i, ∀ msg ∈ ((T.peers n i).cellOf (c n).shared).tx.history, ∀ action r,
      msg.route? = some (action, r) → r ∈ own n ∨
        ∃ j, (T.peers n j).remoteAddr = (T.peers n i).remoteAddr ∧ r.1 ∈ wanted (T.far n j).1) ∧
    (T.server n = false → ∀ vni dest nh,
      .addRoute vni dest nh ∈ (c n).shared.world.client.calls → (vni, dest, nh) ∈ own n ∨
        vni ∈ wanted n ∧ ∃ i, (vni, dest, nh) ∈ T.reach own n i) := by
  have hgrounded := grounded_outside hbegins hrun n
  refine ⟨fun i msg hmsg action r hr ↦ ?_, fun hclient vni dest nh hcall ↦ ?_⟩
  · rcases (hgrounded.told i msg hmsg).reason hr with hown | ⟨⟨j, haddr, -, hwanted⟩, -⟩
    · exact .inl hown
    · exact .inr ⟨j, haddr, hwanted⟩
  · obtain ⟨k, hk⟩ := hgrounded.calls _ hcall
    cases k with
    | none => exact .inl hk
    | some addr =>
      obtain ⟨i, -, hreach, hsub⟩ := hk
      exact .inr ⟨(hsub (T.opens n i hclient)).2, i, hreach⟩

/-- All that a network says where nobody sends a KEEPALIVE first. -/
def silent (T : Topology ν ι) (wanted : ν → Set Vni) (own : ν → Set Route) (n : ν) :
    Outside ι where
  server := T.server n
  confirmed := ∅
  asked _ := ∅
  announced _ := ∅
  wanted := wanted n
  own := own n

/-- As long as nobody else sends a KEEPALIVE, nodes that all run this code never get past their
HELLOs: no connection is established, no route is learned, and nobody subscribes. -/
theorem cold_network (hbegins : ∀ n, Begins (T.peers n) (T.server n) (c₀ n))
    (hrun : Run (Network.Step (T.Starts ∅ wanted own)) c₀ c) (n : ν) :
    (∀ i, ((T.peers n i).cellOf (c n).shared).state ≠ .established ∧
      ∀ msg ∈ ((T.peers n i).cellOf (c n).shared).tx.history, ∃ hello, msg = .hello hello) ∧
      (∀ r, ¬ (c n).shared.world.mb.routeTable.Has r) ∧
      ∀ vni, valueAt (c n).shared.world.mb.subscribers vni = ∅ := by
  have honly {n : ν} {i : ι} {msg : GeneratedMessage}
      (htell : (T.silent wanted own n).Tellable (T.peers n) i msg) :
      ∃ hello, msg = .hello hello := by
    cases htell with
    | hello hello => exact ⟨hello, rfl⟩
    | keepalive h => cases h
    | subscribe vni h _ => cases h
    | unsubscribe vni h _ => cases h
    | announcement vni dest nh h _ => cases h
    | requested action vni dest nh h _ =>
      obtain ⟨i, -, hasked⟩ := h
      cases hasked
    | route action vni dest nh source h _ _ =>
      obtain ⟨i, -, hasked⟩ := h
      cases hasked
  have hgrounded : Grounded (T.silent wanted own n) (T.peers n) (c n).shared := by
    refine grounded_of_run (fun _ ↦ rfl) (fun _ ↦ rfl) (fun _ ↦ rfl) (fun n i msg hmsg ↦ ?_)
      (fun n i msg htell ↦ ?_) hbegins hrun n
    · cases hmsg
    · obtain ⟨hello, rfl⟩ := honly htell
      trivial
  refine ⟨fun i ↦ ⟨fun hest ↦ ?_, fun msg hmsg ↦ honly (hgrounded.told i msg hmsg)⟩,
    fun r hr ↦ ?_, fun vni ↦ ?_⟩
  · cases hgrounded.established i hest
  · obtain ⟨k, hk⟩ := Finset.nonempty_iff_ne_empty.mpr hr
    obtain ⟨hsome, hannounced⟩ := hgrounded.routes r k hk
    obtain ⟨addr, rfl⟩ := Option.ne_none_iff_exists'.mp hsome
    obtain ⟨i, -, hnone, -⟩ := hannounced
    cases hnone
  · refine Finset.eq_empty_of_forall_notMem fun addr haddr ↦ ?_
    obtain ⟨i, -, hnone⟩ := hgrounded.subscribers vni addr haddr
    cases hnone

def pair : Topology Bool Unit where
  server n := n
  peers n _ := Sample.peer 1 (cond n .incoming .outgoing)
  far n _ := (!n, ())
  distinct _ := Function.injective_of_subsingleton _
  opens n _ h := by
    subst h
    rfl
  ends _ _ := rfl

def newPair (n : Bool) : Pool (Actor Unit Unit) Lock World InternalUpdate Unit :=
  ⟨fun _ ↦ ⟨[], .ret ()⟩, Sample.node n⟩

theorem begins_newPair (n : Bool) : Begins (pair.peers n) n (newPair n) :=
  ⟨fun _ ↦ ⟨(), rfl⟩, ⟨rfl, fun _ ↦ rfl, rfl, rfl, rfl, rfl, rfl, rfl, rfl⟩⟩

def clientOwn : Bool → Set Route := fun n ↦ {r | n = false ∧ r = Sample.route}

def clientWanted : Bool → Set Vni := fun n ↦ {vni | n = false ∧ vni = 100}

def client : Peer := Sample.peer 1 .outgoing

def acceptor : Peer := Sample.peer 1 .incoming

def announcedNode : Node :=
  (exec [] (announceRoute 100 Sample.destination Sample.nextHop) (Sample.node false)).shared

def announcement : InternalUpdate := ⟨.add, 100, Sample.destination, Sample.nextHop, none⟩

def installedNode : Node :=
  let s : Node := { announcedNode with chan := ⟨[announcement], [], false⟩ }
  { s with world := { s.world with client := (s.world.client.call (clientCall announcement)).2 } }

def wantingNode : Node :=
  let s := withSubscriptions installedNode (insert 100)
  { s with world := { s.world with client := (s.world.client.call (.clearRoutesForVni 100)).2 } }

noncomputable def connect (p : Peer) : Code Unit := do
  insertPeer p
  let _ ← p.startPeer default
  return ()

def heard (msg : GeneratedMessage) : Round := ⟨false, .frame (.message msg), 0, 0⟩

noncomputable def hear (p : Peer) (msg : GeneratedMessage) : Code Unit := do
  let _ ← p.selectRound default (heard msg) .off
  return ()

noncomputable def callingNode : Node := (exec [] (connect client) wantingNode).shared

noncomputable def listeningNode : Node := (exec [] (connect acceptor) (Sample.node true)).shared

noncomputable def answeringNode : Node :=
  (exec [] (hear acceptor (.hello ⟨5, false⟩)) listeningNode).shared

noncomputable def answeredNode : Node :=
  (exec [] (hear client (.hello ⟨5, true⟩)) callingNode).shared

noncomputable def syncedNode : Node :=
  let c := { client.cellOf answeredNode with state := .established }
  client.withCell answeredNode ((c.initialSubscribes [100]).sendRoutes [Sample.route]).2

noncomputable def establishedNode : Node := client.started syncedNode

noncomputable def learnedNode : Node :=
  (exec [] (hear acceptor (.update (Sample.update .add))) answeringNode).shared

noncomputable def subscribedNode : Node :=
  let s := acceptor.subscribed 100 learnedNode
  acceptor.withCell s ((acceptor.cellOf s).sendRoutes [Sample.route]).2

noncomputable def returnedNode : Node :=
  (exec [] (hear client (.update (Sample.update .add))) establishedNode).shared

theorem exec_hear {p : Peer} {msg : GeneratedMessage} {t : Timers} {s s' : Node}
    (h : exec [] (p.selectRound default (heard msg) .off) s = .done (.again t) [] s') :
    exec [] (hear p msg) s = .done () [] s' := by
  rw [hear, exec_bind, h]
  rfl

theorem exec_synced :
    exec [] (client.process default .keepalive) answeredNode = .done (.ok ()) [] syncedNode := by
  let c := { client.cellOf answeredNode with state := .established }
  have hsynced : synced default answeredNode c =
      ((c.initialSubscribes [100]).sendRoutes [Sample.route]).2 := by
    have hsubs : answeredNode.world.mb.mySubscriptions = {100} := rfl
    have hanns : announcementList default
        answeredNode.world.mb.myAnnouncements.getLocalAnnouncements = [Sample.route] :=
      Sample.announcementList_announced default
    rw [synced, hsubs, hanns, HashOrder.list_singleton]
  have hon : client.onKeepalive default answeredNode (client.cellOf answeredNode) =
      (.ok (), synced default answeredNode c) := rfl
  refine (exec_processKeepalive default client answeredNode).trans ?_
  rw [hon, hsynced]
  rfl

theorem exec_subscribed :
    exec [] (acceptor.process default (.subscribe ⟨100⟩)) learnedNode =
      .done (.ok ()) [] subscribedNode := by
  have hunlisted : acceptor.remoteAddr ∉ valueAt learnedNode.world.mb.subscribers 100 :=
    Finset.notMem_empty _
  have hdone := exec_processSubscribe default acceptor learnedNode ⟨100⟩
  rw [if_neg hunlisted, Sample.snapshotFor_learned default acceptor rfl] at hdone
  exact hdone

/-- What a node may start while the other one is in this state. -/
abbrev MayStart (n : Bool) (other : Node) :
    Actor Unit Unit → Option InternalUpdate → Code Unit → Prop :=
  Work (fun _ msg ↦ msg = .keepalive ∨ msg ∈ ((pair.peers (!n) ()).cellOf other).tx.history)
    (clientWanted n) (clientOwn n) (pair.peers n)

def Reaches (f : Bool → Node) : Prop :=
  ∃ c : Bool → Pool (Actor Unit Unit) Lock World InternalUpdate Unit,
    Run (Network.Step (pair.Starts {.keepalive} clientWanted clientOwn)) newPair c ∧
      (∀ n a, (c n).held a = [] ∧ (c n).Idle a) ∧ ∀ n, (c n).shared = f n

namespace Reaches

variable {f : Bool → Node} (h : Reaches f) (n : Bool) (a : Actor Unit Unit) {t : Code Unit}
  {s : Node}

theorem new : Reaches Sample.node :=
  ⟨newPair, .refl, fun _ _ ↦ ⟨rfl, (), rfl⟩, fun _ ↦ rfl⟩

include h

theorem turn (hrun : ∀ p : Pool (Actor Unit Unit) Lock World InternalUpdate Unit,
      p.shared = f n → (∀ a, p.held a = []) → (∀ a, p.Idle a) →
        Run (Pool.Step (MayStart n (f !n))) p (p.set a ⟨[], .ret ()⟩ s)) :
    Reaches (Function.update f n s) := by
  obtain ⟨c, hc, hrest, hf⟩ := h
  have hnode := hrun (c n) (hf n) (fun a ↦ (hrest n a).1) fun a ↦ (hrest n a).2
  have hturn := @Network.run_node _ _ _ _ _ _ _ _ _ (pair.Starts {.keepalive} clientWanted clientOwn) c
    (MayStart n (f !n)) n _ (fun shared hothers a o t hwork ↦ ?_) hnode
  · refine ⟨_, hc.trans hturn, fun m b ↦ ?_, fun m ↦ ?_⟩
    · by_cases hm : m = n
      · subst hm
        rw [Function.update_self, Pool.unguarded_set fun a ↦ (hrest m a).1]
        refine ⟨rfl, ?_⟩
        by_cases hb : b = a
        · subst hb
          exact ⟨(), by rw [Pool.code_set, Function.update_self]⟩
        · exact (Pool.idle_set_of_ne _ _ _ _ hb).mpr (hrest m b).2
      · rw [Function.update_of_ne hm]
        exact hrest m b
    · by_cases hm : m = n
      · subst hm
        rw [Function.update_self, Function.update_self]
        rfl
      · rw [Function.update_of_ne hm, Function.update_of_ne hm]
        exact hf m
  · refine hwork.mono fun _ msg hmsg ↦ hmsg.imp_right fun hsaid ↦ ?_
    have hother : shared (!n) = f !n := (hothers (!n) (by simp)).trans (hf !n)
    change msg ∈ ((pair.peers (!n) ()).cellOf (shared (!n))).tx.history
    rwa [hother]

theorem start (hwork : MayStart n (f !n) a none t) (hexec : exec [] t (f n) = .done () [] s) :
    Reaches (Function.update f n s) :=
  h.turn n a fun _ hp hheld hidle ↦ Pool.run_whole hheld (hidle a) hwork (hp ▸ hexec)

theorem receive {u : InternalUpdate} {ch : Channel InternalUpdate}
    (hrecv : (f n).chan.recv = some (u, ch)) (hwork : MayStart n (f !n) a (some u) t)
    (hexec : exec [] t { f n with chan := ch } = .done () [] s) :
    Reaches (Function.update f n s) := by
  refine h.turn n a fun _ hp hheld hidle ↦ ?_
  have hrefl : Std.Refl fun _ _ : Node ↦ True := ⟨fun _ ↦ trivial⟩
  exact (Pool.run_receive hheld (hidle a) (hp ▸ hrecv) hwork trivial (Task.confined_true _)
    (hp ▸ hexec)).mono fun _ _ hstep ↦ hstep.1

omit a in
theorem hears (msg : GeneratedMessage)
    (hmsg : msg = .keepalive ∨ msg ∈ ((pair.peers (!n) ()).cellOf (f !n)).tx.history)
    (hexec : exec [] (hear (pair.peers n ()) msg) (f n) = .done () [] s) :
    Reaches (Function.update f n s) := by
  refine h.start n (.connection ()) (.round () default (heard msg) .off fun m hm ↦ ?_) hexec
  cases hm
  exact hmsg

end Reaches

/-- The route of the client goes to the server, and from there back to the client. -/
theorem reaches_returned : ∃ f, Reaches f ∧ f false = returnedNode ∧ f true = subscribedNode := by
  have hannounced := Reaches.new.start false (.caller ()) (s := announcedNode)
    (.call () (.announceRoute 100 Sample.destination Sample.nextHop ⟨rfl, rfl⟩)) rfl
  have hinstall : exec [] (do
      let _ ← distribute default announcement
      return () : Code Unit) { announcedNode with chan := ⟨[announcement], [], false⟩ } =
        .done () [] installedNode := by
    rw [exec_bind, exec_distribute_unlisted default _ rfl]
    rfl
  have hinstalled := hannounced.receive false .distributor rfl
    (.distribute default announcement) hinstall
  have hwant : exec [] (do
      let _ ← subscribe default 100
      return () : Code Unit) installedNode = .done () [] wantingNode := by
    rw [exec_bind, exec_subscribe_new default rfl (Finset.notMem_empty _),
      resubscribed_of_no_peers _ _ rfl]
    rfl
  have hwanting := hinstalled.start false (.caller ())
    (.call () (.subscribe default 100 ⟨rfl, rfl⟩)) hwant
  have hcalling := hwanting.start false (.connection ()) (s := callingNode)
    (.connect () default) rfl
  have hlistening := hcalling.start true (.connection ()) (s := listeningNode)
    (.connect () default) rfl
  have hanswering := hlistening.hears true (.hello ⟨5, false⟩) (s := answeringNode)
    (.inr List.mem_cons_self) rfl
  have hanswered := hanswering.hears false (.hello ⟨5, true⟩) (s := answeredNode)
    (.inr List.mem_cons_self) rfl
  have hestablished := hanswered.hears false .keepalive (.inl rfl) (exec_hear
    (Connection.exec_selectRound_started rfl rfl exec_synced rfl rfl rfl))
  have hclient : (client.cellOf establishedNode).tx.history =
      [.hello ⟨5, false⟩, .subscribe ⟨100⟩, .update (Sample.update .add), .keepalive] := rfl
  have hserver : (acceptor.cellOf subscribedNode).tx.history =
      [.hello ⟨5, true⟩, .update (Sample.update .add)] := rfl
  have hgreeting : (acceptor.cellOf subscribedNode).state = .helloSent := rfl
  have hlearned := hestablished.hears true (.update (Sample.update .add)) (s := learnedNode)
    (.inr (hclient ▸ by simp)) rfl
  have hsubscribed := hlearned.hears true (.subscribe ⟨100⟩) (.inr (hclient ▸ by simp))
    (exec_hear (Connection.exec_selectRound_kept rfl rfl exec_subscribed fun h ↦ by
      cases hgreeting.symm.trans h.1))
  have hreturned := hsubscribed.hears false (.update (Sample.update .add)) (s := returnedNode)
    (.inr (hserver ▸ by simp)) rfl
  exact ⟨_, hreturned, rfl, rfl⟩

/-- The server has learned the route of the client, and the client its own from the server. -/
theorem two_hops_sample : ∃ server client : Node,
    server.world.mb.routeTable.Has Sample.route ∧ client.world.mb.routeTable.Has Sample.route ∧
    (∀ r k, k ∈ server.world.mb.routeTable.sources r →
      ∃ i, k = some (pair.peers true i).remoteAddr ∧ r ∈ clientOwn (pair.far true i).1) ∧
    (∀ r, client.world.mb.routeTable.Has r → ∃ i, r ∈ clientOwn (pair.far false i).1 ∨
      ∃ j, r ∈ clientOwn (pair.far (pair.far false i).1 j).1 ∧
        (r.2.2.hopType = .nat → (pair.peers (pair.far false i).1 j).remoteAddr ≠
          (pair.peers (pair.far false i).1 (pair.far false i).2).remoteAddr)) ∧
    ∀ i, ∀ msg ∈ ((pair.peers false i).cellOf client).tx.history,
      ∀ action r, msg.route? = some (action, r) → r ∈ clientOwn false := by
  obtain ⟨f, hreaches, hclient, hserver⟩ := reaches_returned
  obtain ⟨c, hrun, -, hf⟩ := hreaches
  have hatServer := two_hops begins_newPair hrun true
  have hatClient := two_hops begins_newPair hrun false
  rw [hf, hserver] at hatServer
  rw [hf, hclient] at hatClient
  exact ⟨subscribedNode, returnedNode, by decide, by decide, hatServer.1 rfl, hatClient.2.1 rfl,
    hatClient.2.2 rfl⟩

theorem tenants_apart_sample : ∃ server client : Node,
    .update (Sample.update .add) ∈ ((pair.peers true ()).cellOf server).tx.history ∧
    .addRoute 100 Sample.destination Sample.nextHop ∈ client.world.client.calls ∧
    (∀ i, ∀ msg ∈ ((pair.peers true i).cellOf server).tx.history, ∀ action r,
      msg.route? = some (action, r) → r ∈ clientOwn true ∨
        ∃ j, (pair.peers true j).remoteAddr = (pair.peers true i).remoteAddr ∧
          r.1 ∈ clientWanted (pair.far true j).1) ∧
    ∀ vni dest nh, .addRoute vni dest nh ∈ client.world.client.calls →
      (vni, dest, nh) ∈ clientOwn false ∨
        vni ∈ clientWanted false ∧ ∃ i, (vni, dest, nh) ∈ pair.reach clientOwn false i := by
  obtain ⟨f, hreaches, hclient, hserver⟩ := reaches_returned
  obtain ⟨c, hrun, -, hf⟩ := hreaches
  have hatServer := tenants_apart begins_newPair hrun true
  have hatClient := tenants_apart begins_newPair hrun false
  rw [hf, hserver] at hatServer
  rw [hf, hclient] at hatClient
  refine ⟨subscribedNode, returnedNode, ?_, ?_, hatServer.1, hatClient.2 rfl⟩
  · have htold : (acceptor.cellOf subscribedNode).tx.history =
        [.hello ⟨5, true⟩, .update (Sample.update .add)] := rfl
    exact htold ▸ by simp
  · have hcalls : returnedNode.world.client.calls =
        [.addRoute 100 Sample.destination Sample.nextHop, .clearRoutesForVni 100] := rfl
    exact hcalls ▸ by simp

noncomputable def greetedNode : Node := (exec [] (do
  insertPeer (pair.peers false ())
  let _ ← (pair.peers false ()).startPeer .toList) (Sample.node false)).shared

theorem cold_network_sample : ∃ c : Bool → Pool (Actor Unit Unit) Lock World InternalUpdate Unit,
    ((pair.peers false ()).cellOf (c false).shared).tx.history ≠ [] ∧
      ((pair.peers false ()).cellOf (c false).shared).state ≠ .established := by
  let S : Actor Unit Unit → Option InternalUpdate → Code Unit → Prop :=
    Work (fun _ _ ↦ False) ∅ ∅ (pair.peers false)
  let c₁ := (newPair false).set (.connection ()) ⟨[], .ret ()⟩ greetedNode
  have hconnect : Run (Pool.Step S) (newPair false) c₁ :=
    Pool.run_whole (fun _ ↦ rfl) ⟨(), rfl⟩ (.connect () .toList) rfl
  have hrun : Run (Network.Step (pair.Starts ∅ (fun _ ↦ ∅) fun _ ↦ ∅)) newPair
      (Function.update newPair false c₁) :=
    Network.run_node (fun _ _ _ _ _ h ↦ h.mono fun _ _ h ↦ h.elim) hconnect
  refine ⟨_, ?_, ((cold_network begins_newPair hrun false).1 ()).1⟩
  rw [Function.update_self]
  exact List.cons_ne_nil _ _

end Topology

end MetalBond
