import MetalBond.Deliveries
import MetalBond.TableExec

namespace MetalBond.Resubscription

open Async Task Collections HashMap Peer

/-- What the application and the servers do to a client. A client connects to its peers. -/
inductive Operation
  | subscribe (vni : Vni)
  | unsubscribe (vni : Vni)
  | update (peer : Peer) (outgoing : peer.direction = .outgoing) (msg : Pb.Update)

def Operation.code (ord : HashOrder) : Operation → Code (Except Error Unit)
  | subscribe vni => MetalBond.subscribe ord vni
  | unsubscribe vni => MetalBond.unsubscribe ord vni
  | update peer _ msg => peer.processUpdate msg

/-- An operation runs to its end, and then the distributor until its channel is empty. -/
def Performs (op : Operation) (s s' : Node) : Prop :=
  ∃ ord r s₁, exec [] (op.code ord) s = .done r [] s₁ ∧ Drains s₁ s'

/-- The operations of a run, each with the state after it. -/
inductive Trace : Node → List (Operation × Node) → Prop
  | nil (s : Node) : Trace s []
  | cons {s s' : Node} {op : Operation} {steps : List (Operation × Node)} (h : Performs op s s')
    (hrest : Trace s' steps) : Trace s ((op, s') :: steps)

/-- The OS has the learned routes of the subscribed VNIs, and there are no others. -/
structure Consistent (s : Node) : Prop where
  subscribed : ∀ r : Route, r.1 ∈ s.world.mb.mySubscriptions →
    (r ∈ s.world.client.routes ↔ s.world.mb.routeTable.Has r)
  unsubscribed : ∀ r : Route, r.1 ∉ s.world.mb.mySubscriptions →
    r ∉ s.world.client.routes ∧ ¬ s.world.mb.routeTable.Has r

structure Ready (s : Node) : Prop where
  client : s.world.mb.isServer = false
  queue : s.chan.queue = []
  opened : s.chan.closed = false

structure Fresh (s : Node) : Prop extends Ready s where
  subscriptions : s.world.mb.mySubscriptions = ∅
  table : s.world.mb.routeTable = .new
  calls : s.world.client.calls = []

/-- An unsubscription finds no route of its VNI in the table. -/
def Operation.Clean (s : Node) : Operation → Prop
  | unsubscribe vni => vni ∈ s.world.mb.mySubscriptions →
      ∀ r : Route, r.1 = vni → ¬ s.world.mb.routeTable.Has r
  | _ => True

def Careful : Node → List (Operation × Node) → Prop
  | _, [] => True
  | s, (op, s') :: steps => op.Clean s ∧ Careful s' steps

variable {s s' : Node} {vni : Vni}

theorem Fresh.consistent (h : Fresh s) : Consistent s where
  subscribed r hr := by simp [h.subscriptions] at hr
  unsubscribed r _ := by simp [Client.routes, h.calls, h.table, RouteTable.Has]

structure Switched (vni : Vni) (subs : Finset Vni) (s s' : Node) : Prop where
  ready : Ready s'
  table : s'.world.mb.routeTable = s.world.mb.routeTable
  subscriptions : s'.world.mb.mySubscriptions = subs
  routes : s'.world.client.routes = {r ∈ s.world.client.routes | r.1 ≠ vni}

theorem switched_of_drains {msg : GeneratedMessage} {ord : HashOrder} {f : Finset Vni → Finset Vni}
    (h : Ready s) (hdrain : Drains (resubscribed msg ord vni (withSubscriptions s f)) s') :
    Switched vni (f s.world.mb.mySubscriptions) s s' := by
  have hframe := queuesOnly_resubscribed msg (withSubscriptions s f) ord vni
  have hdrained := hdrain.drained
  have hqueue : (resubscribed msg ord vni (withSubscriptions s f)).chan.queue = [] := by
    rw [hframe.chan]
    exact h.queue
  refine ⟨⟨?_, hdrained.queue, ?_⟩, ?_, ?_, ?_⟩
  · rw [hdrained.mb, hframe.mb]
    exact h.client
  · rw [hdrained.opened, hframe.chan]
    exact h.opened
  · rw [hdrained.mb, hframe.mb]
    rfl
  · rw [hdrained.mb, hframe.mb]
    rfl
  · rw [hdrained.routes, hqueue, hframe.client, Client.routes_call]
    rfl

theorem performs_subscribe (h : Ready s) (hop : Performs (.subscribe vni) s s') :
    if vni ∈ s.world.mb.mySubscriptions then s' = s
    else Switched vni (insert vni s.world.mb.mySubscriptions) s s' := by
  obtain ⟨ord, r, s₁, hexec, hdrain⟩ := hop
  obtain ⟨r', hdone⟩ := exec_subscribe ord vni h.client
  cases hexec.symm.trans hdone
  split at hdrain
  · next hmem => rw [if_pos hmem]; exact hdrain.eq_of_nil h.queue
  · next hmem => rw [if_neg hmem]; exact switched_of_drains h hdrain

theorem performs_unsubscribe (h : Ready s) (hop : Performs (.unsubscribe vni) s s') :
    if vni ∈ s.world.mb.mySubscriptions then
      Switched vni (s.world.mb.mySubscriptions.erase vni) s s'
    else s' = s := by
  obtain ⟨ord, r, s₁, hexec, hdrain⟩ := hop
  obtain ⟨r', hdone⟩ := exec_unsubscribe ord vni h.client
  cases hexec.symm.trans hdone
  split at hdrain
  · next hmem => rw [if_pos hmem]; exact switched_of_drains h hdrain
  · next hmem => rw [if_neg hmem]; exact hdrain.eq_of_nil h.queue

/-- Table and OS went through the same changes, all of subscribed VNIs. -/
structure Followed (log : List (Change Route)) (s s' : Node) : Prop where
  ready : Ready s'
  subscriptions : s'.world.mb.mySubscriptions = s.world.mb.mySubscriptions
  table : s'.world.mb.routeTable.present = replay s.world.mb.routeTable.present log
  routes : s'.world.client.routes = replay s.world.client.routes log
  listened : ∀ c ∈ log, c.subject.1 ∈ s.world.mb.mySubscriptions

theorem followed_self (h : Ready s) : Followed [] s s := ⟨h, rfl, rfl, rfl, by simp⟩

theorem route_of_changeUpdates {action : UpdateAction} {dest : Destination} {nh : NextHop}
    {source : PeerKey} {remaining : Except Error ℕ} {u : InternalUpdate}
    (hu : u ∈ changeUpdates action vni dest nh source remaining) :
    u.route = (vni, dest, nh) := by
  unfold changeUpdates at hu
  split at hu
  · split at hu
    · rw [List.mem_singleton.mp hu]
      rfl
    · split at hu
      · rw [List.mem_singleton.mp hu]
        rfl
      · cases hu
  · cases hu

structure Learned (action : UpdateAction) (vni : Vni) (dest : Destination) (nh : NextHop)
    (source : PeerKey) (s s' : Node) : Prop where
  ready : Ready s'
  mb : s'.world.mb = (applyUpdate action vni dest nh source s.world).2.mb
  routes : s'.world.client.routes = replay s.world.client.routes ((changeUpdates action vni dest nh
    source (applyUpdate action vni dest nh source s.world).1).map InternalUpdate.toChange)

theorem learned_of_drains {action : UpdateAction} {dest : Destination} {nh : NextHop}
    {source : PeerKey} (h : Ready s) (hdrain : Drains (stored action vni dest nh source s) s') :
    Learned action vni dest nh source s s' := by
  let us := changeUpdates action vni dest nh source (applyUpdate action vni dest nh source s.world).1
  have hchan : (stored action vni dest nh source s).chan = s.chan.pushAll us :=
    Channel.sendAll_of_open h.opened us
  have hqueue : (stored action vni dest nh source s).chan.queue = us := by
    rw [hchan, Channel.queue_pushAll, h.queue, List.nil_append]
  obtain ⟨t, ht⟩ := @routesOnly_applyUpdate vni dest nh source s.world action
  have hworld : (stored action vni dest nh source s).world =
    s.world.modifyMb fun mb ↦ { mb with routeTable := t } := ht
  have hdrained := hdrain.drained
  refine ⟨⟨?_, hdrained.queue, ?_⟩, hdrained.mb, ?_⟩
  · rw [hdrained.mb, hworld]
    exact h.client
  · rw [hdrained.opened, hchan, Channel.closed_pushAll, h.opened]
  · rw [hdrained.routes, hqueue, hworld]
    rfl

theorem Learned.subscriptions {action : UpdateAction} {dest : Destination} {nh : NextHop}
    {source : PeerKey} (h : Learned action vni dest nh source s s') :
    s'.world.mb.mySubscriptions = s.world.mb.mySubscriptions := by
  obtain ⟨t, ht⟩ := @routesOnly_applyUpdate vni dest nh source s.world action
  rw [h.mb, ht]
  rfl

theorem Learned.followed {action : UpdateAction} {dest : Destination} {nh : NextHop}
    {source : PeerKey} (h : Learned action vni dest nh source s s')
    (hmem : vni ∈ s.world.mb.mySubscriptions) : ∃ log, Followed log s s' := by
  refine ⟨_, h.ready, h.subscriptions, ?_, h.routes, fun c hc ↦ ?_⟩
  · rw [h.mb]
    exact present_applyUpdate action vni dest nh source s.world
  · obtain ⟨u, hu, rfl⟩ := List.mem_map.mp hc
    rw [InternalUpdate.toChange, subject_changeOf, route_of_changeUpdates hu]
    exact hmem

theorem followed_of_drains {peer : Peer} {msg : Pb.Update} (hout : peer.direction = .outgoing)
    (h : Ready s) (hdrain : Drains (peer.updated msg s) s') : ∃ log, Followed log s s' := by
  unfold updated at hdrain
  split at hdrain
  · rw [hdrain.eq_of_nil h.queue]
    exact ⟨[], followed_self h⟩
  · next action vni dest nh _ =>
    by_cases hig : peer.Ignores vni s
    · rw [if_pos hig] at hdrain
      rw [hdrain.eq_of_nil h.queue]
      exact ⟨[], followed_self h⟩
    · rw [if_neg hig] at hdrain
      refine (learned_of_drains h hdrain).followed ?_
      by_contra hnot
      exact hig ⟨hnot, hout⟩

theorem drains_of_update {peer : Peer} {hout : peer.direction = .outgoing} {msg : Pb.Update}
    (hop : Performs (.update peer hout msg) s s') : Drains (peer.updated msg s) s' := by
  obtain ⟨ord, r, s₁, hexec, hdrain⟩ := hop
  have hshared := shared_processUpdate peer s msg
  rw [show exec [] (peer.processUpdate msg) s = _ from hexec, Outcome.shared_done] at hshared
  rwa [← hshared]

theorem performs_update {peer : Peer} {hout : peer.direction = .outgoing} {msg : Pb.Update}
    (h : Ready s) (hop : Performs (.update peer hout msg) s s') : ∃ log, Followed log s s' :=
  followed_of_drains hout h (drains_of_update hop)

theorem Consistent.switched {subs : Finset Vni} (h : Consistent s) (hs : Switched vni subs s s')
    (hvni : ∀ r : Route, r.1 = vni → ¬ s.world.mb.routeTable.Has r)
    (hsubs : ∀ v ≠ vni, v ∈ subs ↔ v ∈ s.world.mb.mySubscriptions) : Consistent s' := by
  have hkept : ∀ r : Route, r.1 ≠ vni → (r ∈ s'.world.client.routes ↔ r ∈ s.world.client.routes) := by
    intro r hr
    rw [hs.routes]
    exact and_iff_left hr
  have hgone : ∀ r : Route, r.1 = vni → r ∉ s'.world.client.routes := by
    intro r hr
    rw [hs.routes]
    exact fun hmem ↦ hmem.2 hr
  constructor
  · intro r hmem
    rw [hs.table]
    by_cases hr : r.1 = vni
    · exact iff_of_false (hgone r hr) (hvni r hr)
    · rw [hs.subscriptions, hsubs _ hr] at hmem
      rw [hkept r hr]
      exact h.subscribed r hmem
  · intro r hmem
    rw [hs.table]
    by_cases hr : r.1 = vni
    · exact ⟨hgone r hr, hvni r hr⟩
    · rw [hs.subscriptions, hsubs _ hr] at hmem
      rw [hkept r hr]
      exact h.unsubscribed r hmem

theorem Consistent.followed {log : List (Change Route)} (h : Consistent s)
    (hf : Followed log s s') : Consistent s' := by
  have hhas : ∀ (t : Node) (r : Route),
      t.world.mb.routeTable.Has r ↔ r ∈ t.world.mb.routeTable.present := fun _ _ ↦ Iff.rfl
  have hsame : s.world.client.routes = s.world.mb.routeTable.present := by
    ext r
    by_cases hr : r.1 ∈ s.world.mb.mySubscriptions
    · exact h.subscribed r hr
    · exact iff_of_false (h.unsubscribed r hr).1 (h.unsubscribed r hr).2
  have hsame' : s'.world.client.routes = s'.world.mb.routeTable.present := by
    rw [hf.routes, hf.table, hsame]
  refine ⟨fun r _ ↦ by rw [hsame', hhas], fun r hr ↦ ?_⟩
  rw [hsame', hhas, and_self, hf.table]
  rw [hf.subscriptions] at hr
  have hnot : ∀ c ∈ log, c.subject ≠ r := fun c hc heq ↦ hr (heq ▸ hf.listened c hc)
  rw [mem_replay_of_not_mentioned hnot]
  exact (h.unsubscribed r hr).2

theorem ready_of_performs {op : Operation} (h : Ready s) (hop : Performs op s s') : Ready s' := by
  cases op with
  | subscribe vni =>
    have hs := performs_subscribe h hop
    split at hs
    · rwa [hs]
    · exact hs.ready
  | unsubscribe vni =>
    have hs := performs_unsubscribe h hop
    split at hs
    · exact hs.ready
    · rwa [hs]
  | update peer hout msg =>
    obtain ⟨log, hf⟩ := performs_update h hop
    exact hf.ready

theorem consistent_iff_clean {op : Operation} (h : Ready s) (hcons : Consistent s)
    (hop : Performs op s s') : Consistent s' ↔ op.Clean s := by
  cases op with
  | subscribe vni =>
    refine iff_of_true ?_ trivial
    have hs := performs_subscribe h hop
    split at hs
    · rwa [hs]
    · next hmem =>
      refine hcons.switched hs (fun r hr ↦ ?_) fun v hv ↦ ?_
      · subst hr
        exact (hcons.unsubscribed r hmem).2
      · simp [hv]
  | unsubscribe vni =>
    have hs := performs_unsubscribe h hop
    split at hs
    · next hmem =>
      constructor
      · rintro hcons' - r rfl
        have hnot : r.1 ∉ s'.world.mb.mySubscriptions := by simp [hs.subscriptions]
        rw [← hs.table]
        exact (hcons'.unsubscribed r hnot).2
      · intro hclean
        refine hcons.switched hs (hclean hmem) fun v hv ↦ ?_
        simp [hv]
    · next hmem =>
      rw [hs]
      exact iff_of_true hcons fun h ↦ absurd h hmem
  | update peer hout msg =>
    obtain ⟨log, hf⟩ := performs_update h hop
    exact iff_of_true (hcons.followed hf) trivial

theorem consistent_iff_careful_of_consistent {steps : List (Operation × Node)} (h : Ready s)
    (hcons : Consistent s) (htrace : Trace s steps) :
    (∀ x ∈ steps, Consistent x.2) ↔ Careful s steps := by
  induction htrace with
  | nil s => simp [Careful]
  | @cons s s' op steps hop hrest ih =>
    rw [List.forall_mem_cons, Careful, consistent_iff_clean h hcons hop]
    refine and_congr_right fun hclean ↦ ?_
    exact ih (ready_of_performs h hop) ((consistent_iff_clean h hcons hop).mpr hclean)

/-- OS and table agree after every operation exactly when no unsubscription leaves a route
of its VNI in the table. -/
theorem consistent_iff_careful {steps : List (Operation × Node)} (h : Fresh s)
    (htrace : Trace s steps) : (∀ x ∈ steps, Consistent x.2) ↔ Careful s steps :=
  consistent_iff_careful_of_consistent h.toReady h.consistent htrace

theorem exists_performs (op : Operation) (h : Ready s) : ∃ s', Performs op s s' := by
  let ord : HashOrder := .toList
  have hexec : ∃ r s₁, exec [] (op.code ord) s = .done r [] s₁ := by
    cases op with
    | subscribe vni =>
      obtain ⟨r, hdone⟩ := exec_subscribe ord vni h.client
      exact ⟨r, _, hdone⟩
    | unsubscribe vni =>
      obtain ⟨r, hdone⟩ := exec_unsubscribe ord vni h.client
      exact ⟨r, _, hdone⟩
    | update peer hout msg => exact ends_processUpdate peer msg s
  obtain ⟨r, s₁, hdone⟩ := hexec
  obtain ⟨s', hdrain⟩ := exists_drains ord s₁
  exact ⟨s', ord, r, s₁, hdone, hdrain⟩

theorem exists_trace (ops : List Operation) (h : Ready s) :
    ∃ steps, steps.map Prod.fst = ops ∧ Trace s steps := by
  induction ops generalizing s with
  | nil => exact ⟨[], rfl, .nil s⟩
  | cons op ops ih =>
    obtain ⟨s', hop⟩ := exists_performs op h
    obtain ⟨steps, hsteps, htrace⟩ := ih (ready_of_performs h hop)
    exact ⟨(op, s') :: steps, congrArg (op :: ·) hsteps, .cons hop htrace⟩

def server : Peer := Sample.peer 1 .outgoing

def announcement : Operation := .update server rfl (Sample.update .add)

theorem fresh_sample : Fresh (Sample.node false) :=
  ⟨⟨rfl, rfl, rfl⟩, rfl, rfl, rfl⟩

theorem consistent_iff_careful_sample : ∃ steps,
    steps.map Prod.fst = [.subscribe 100, announcement] ∧
      Trace (Sample.node false) steps ∧
      ((∀ x ∈ steps, Consistent x.2) ↔ Careful (Sample.node false) steps) := by
  obtain ⟨steps, hsteps, htrace⟩ := exists_trace [.subscribe 100, announcement]
    fresh_sample.toReady
  exact ⟨steps, hsteps, htrace, consistent_iff_careful fresh_sample htrace⟩

theorem performs_announcement (h : Ready s) (hmem : 100 ∈ s.world.mb.mySubscriptions)
    (hop : Performs announcement s s') :
    Learned .add 100 Sample.destination Sample.nextHop (some server.remoteAddr) s s' := by
  have hdrain := drains_of_update hop
  have hparse : parseUpdate (Sample.update .add) =
      .ok (.add, 100, Sample.destination, Sample.nextHop) := parseUpdate_updateMessage ..
  have hig : ¬ server.Ignores 100 s := fun hig ↦ hig.1 hmem
  simp only [updated, hparse, if_neg hig] at hdrain
  exact learned_of_drains h hdrain

/-- The server announces its route again after the client has subscribed again: the OS does
not get it, since the table still has it. -/
theorem resubscription_loses_route : ∃ steps,
    steps.map Prod.fst =
      [.subscribe 100, announcement, .unsubscribe 100, .subscribe 100, announcement] ∧
      Trace (Sample.node false) steps ∧
      ∃ x ∈ steps, Sample.route.1 ∈ x.2.world.mb.mySubscriptions ∧
        x.2.world.mb.routeTable.Has Sample.route ∧ Sample.route ∉ x.2.world.client.routes ∧
        ¬ Consistent x.2 := by
  obtain ⟨s₁, h₁⟩ := exists_performs (.subscribe 100) fresh_sample.toReady
  have hs₁ := performs_subscribe fresh_sample.toReady h₁
  rw [if_neg (by simp [fresh_sample.subscriptions])] at hs₁
  obtain ⟨s₂, h₂⟩ := exists_performs announcement hs₁.ready
  have hs₂ := performs_announcement hs₁.ready (by simp [hs₁.subscriptions]) h₂
  obtain ⟨s₃, h₃⟩ := exists_performs (.unsubscribe 100) hs₂.ready
  have hs₃ := performs_unsubscribe hs₂.ready h₃
  rw [if_pos (by simp [hs₂.subscriptions, hs₁.subscriptions])] at hs₃
  obtain ⟨s₄, h₄⟩ := exists_performs (.subscribe 100) hs₃.ready
  have hs₄ := performs_subscribe hs₃.ready h₄
  rw [if_neg (by simp [hs₃.subscriptions])] at hs₄
  obtain ⟨s₅, h₅⟩ := exists_performs announcement hs₄.ready
  have hmem : 100 ∈ s₄.world.mb.mySubscriptions := by simp [hs₄.subscriptions]
  have hs₅ := performs_announcement hs₄.ready hmem h₅
  -- The table has kept the source through both changes of the subscriptions.
  have hsource : some server.remoteAddr ∈ s₄.world.mb.routeTable.sources Sample.route := by
    rw [hs₄.table, hs₃.table, hs₂.mb]
    exact mem_sources_applyUpdate
  have hcount := applyUpdate_of_mem hsource
  have hhas : s₅.world.mb.routeTable.Has Sample.route := by
    refine RouteTable.has_of_mem (k := some server.remoteAddr) ?_
    rw [hs₅.mb]
    exact mem_sources_applyUpdate
  have hlost : Sample.route ∉ s₅.world.client.routes := by
    rw [hs₅.routes, hcount, hs₄.routes]
    exact fun hroute ↦ hroute.2 rfl
  have hmem₅ : Sample.route.1 ∈ s₅.world.mb.mySubscriptions := by
    rw [hs₅.subscriptions]
    exact hmem
  have htrace := Trace.cons h₁ (.cons h₂ (.cons h₃ (.cons h₄ (.cons h₅ (.nil s₅)))))
  refine ⟨_, rfl, htrace, (announcement, s₅), by simp, hmem₅, hhas, hlost, fun hcons ↦ ?_⟩
  exact hlost ((hcons.subscribed Sample.route hmem₅).mpr hhas)

end MetalBond.Resubscription
