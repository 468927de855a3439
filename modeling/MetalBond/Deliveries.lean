import MetalBond.Feed
import MetalBond.NodeExec

namespace MetalBond

open Async Task Collections HashMap Peer

structure QueuesOnly (s s' : Node) : Prop extends Alike s s' where
  client : s'.world.client = s.world.client
  chan : s'.chan = s.chan

instance : Std.Refl QueuesOnly :=
  ⟨fun _ ↦ { mb := rfl, link := fun _ ↦ .refl _, closed := fun _ ↦ rfl, client := rfl, chan := rfl }⟩

theorem QueuesOnly.trans {s s' s'' : Node} (h : QueuesOnly s s') (h' : QueuesOnly s' s'') :
    QueuesOnly s s'' where
  mb := h'.mb.trans h.mb
  link id := (h.link id).trans (h'.link id)
  closed id := (h'.closed id).trans (h.closed id)
  client := h'.client.trans h.client
  chan := h'.chan.trans h.chan

theorem queuesOnly_sent (p : Peer) (s : Node) (msg : GeneratedMessage) :
    QueuesOnly s (p.sent s msg) where
  toAlike := p.alike_sent s msg
  client := rfl
  chan := rfl

theorem queuesOnly_foldl {f : Node → Peer → Node} (hf : ∀ s p, QueuesOnly s (f s p)) (s : Node)
    (peers : List Peer) : QueuesOnly s (peers.foldl f s) := by
  induction peers generalizing s with
  | nil => exact Std.Refl.refl s
  | cons p rest ih => exact (hf s p).trans (ih (f s p))

/-- What a call does to the routes of a client that keeps a set of them. -/
def ClientCall.apply (routes : Set Route) : ClientCall → Set Route
  | addRoute vni dest nh => insert (vni, dest, nh) routes
  | removeRoute vni dest nh => routes \ {(vni, dest, nh)}
  | clearRoutesForVni vni => {r ∈ routes | r.1 ≠ vni}

def Client.routes (c : Client) : Set Route := c.calls.foldl ClientCall.apply ∅

theorem Client.routes_call (c : Client) (call : ClientCall) :
    (c.call call).2.routes = call.apply c.routes := by
  simp [Client.routes, Client.call]

theorem apply_clientCall (u : InternalUpdate) (routes : Set Route) :
    (clientCall u).apply routes = u.toChange.apply routes := by
  obtain ⟨action, vni, dest, nh, source⟩ := u
  cases action <;> rfl

section Distribute

variable (u : InternalUpdate) (p : Peer) (s : Node)

def fromServer (source : PeerKey) (s : Node) : Bool :=
  match source with
  | none => s.world.mb.isServer
  | some addr =>
    match s.world.mb.peers.lookup addr with
    | none => false
    | some source => (source.cellOf s).isRemoteServer

/-- Loop prevention keeps an update from a peer. -/
def Withheld : Prop :=
  (some p.remoteAddr = u.sourcePeer ∧ u.nextHop.hopType = .nat) ∨
    (fromServer u.sourcePeer s = true ∧ (p.cellOf s).isRemoteServer = true)

instance : Decidable (Withheld u p s) := inferInstanceAs (Decidable (_ ∨ _))

def InternalUpdate.message : GeneratedMessage :=
  updateMessage u.action u.vni u.destination u.nextHop

def forwarded (s : Node) (p : Peer) : Node :=
  if Withheld u p s then s else p.sent s u.message

theorem queuesOnly_forwarded : QueuesOnly s (forwarded u s p) := by
  unfold forwarded
  split
  · exact Std.Refl.refl s
  · exact queuesOnly_sent p s _

theorem exec_sourceIsServer (source : PeerKey) :
    exec [(.metalbondState, .read)] (sourceIsServer source) s =
      .done (fromServer source s) [(.metalbondState, .read)] s := by
  cases source with
  | none => rfl
  | some addr =>
    simp only [sourceIsServer, fromServer, exec_bind, exec_gets, Outcome.done_andThen]
    cases s.world.mb.peers.lookup addr with
    | none => rfl
    | some source => exact exec_reading _ s rfl _

theorem exec_forward : exec [(.metalbondState, .read)] (forward u p) s =
    .done () [(.metalbondState, .read)] (forwarded u s p) := by
  unfold forward forwarded Withheld
  by_cases hown : some p.remoteAddr = u.sourcePeer ∧ u.nextHop.hopType = .nat
  · simp [hown]
  · have hread : exec [(.metalbondState, .read)] (reading (.isRemoteServer p.id) fun w ↦
        (w.cell p.id).isRemoteServer : Code Bool) s =
        .done (p.cellOf s).isRemoteServer [(.metalbondState, .read)] s := exec_reading _ s rfl _
    simp only [hown, false_or, if_false, exec_bind, exec_sourceIsServer, Outcome.done_andThen,
      hread]
    cases hsource : fromServer u.sourcePeer s <;> cases htarget : (p.cellOf s).isRemoteServer <;>
      simp [sendUpdate, exec_bind, sent, InternalUpdate.message]

theorem exec_forwardAll (peers : List Peer) :
    exec [(.metalbondState, .read)] (forwardAll u peers) s =
      .done () [(.metalbondState, .read)] (peers.foldl (forwarded u) s) := by
  induction peers generalizing s with
  | nil => rfl
  | cons p rest ih =>
    simp only [forwardAll, exec_bind, exec_forward, Outcome.done_andThen, ih, List.foldl_cons]

theorem withheld_congr {s s' : Node} (hserver : s'.world.mb.isServer = s.world.mb.isServer)
    (hpeers : s'.world.mb.peers = s.world.mb.peers)
    (hflags : ∀ id, (s'.world.cell id).isRemoteServer = (s.world.cell id).isRemoteServer) :
    Withheld u p s' ↔ Withheld u p s := by
  have hsource : fromServer u.sourcePeer s' = fromServer u.sourcePeer s := by
    cases u.sourcePeer with
    | none => exact hserver
    | some addr =>
      simp only [fromServer, hpeers]
      cases s.world.mb.peers.lookup addr with
      | none => rfl
      | some source => exact hflags source.id
  have htarget : (p.cellOf s').isRemoteServer = (p.cellOf s).isRemoteServer := hflags p.id
  rw [Withheld, Withheld, hsource, htarget]

theorem cellOf_foldl_forwarded {peers : List Peer} (h : ∀ q ∈ peers, q.id ≠ p.id) :
    p.cellOf (peers.foldl (forwarded u) s) = p.cellOf s := by
  induction peers generalizing s with
  | nil => rfl
  | cons q rest ih =>
    rw [List.foldl_cons, ih _ fun q hq ↦ h q (List.mem_cons_of_mem _ hq)]
    unfold forwarded
    split
    · rfl
    · exact World.setCell_cell_of_ne _ (h q List.mem_cons_self).symm _

def distributed (ord : HashOrder) : Node :=
  (peersToNotify ord u.vni s.world.mb).foldl (forwarded u)
    { s with world := { s.world with client := (s.world.client.call (clientCall u)).2 } }

theorem exec_distribute_done (ord : HashOrder) :
    exec [] (distribute ord u) s = .done (.ok ()) [] (distributed u s ord) := by
  rw [exec_distribute, exec_bind, exec_forwardAll]
  rfl

theorem queuesOnly_distributed (ord : HashOrder) : QueuesOnly
    { s with world := { s.world with client := (s.world.client.call (clientCall u)).2 } }
    (distributed u s ord) :=
  queuesOnly_foldl (fun s p ↦ queuesOnly_forwarded u p s) _ _

variable {p s}

theorem cellOf_distributed (h : p.Linked s) (ord : HashOrder) :
    p.cellOf (distributed u s ord) =
      if p.remoteAddr ∈ valueAt s.world.mb.subscribers u.vni ∧ ¬ Withheld u p s then
        ((p.cellOf s).trySend u.message).2
      else p.cellOf s := by
  let s₀ : Node :=
    { s with world := { s.world with client := (s.world.client.call (clientCall u)).2 } }
  have hsplit := h.split ord u.vni
  by_cases hmem : p.remoteAddr ∈ valueAt s.world.mb.subscribers u.vni
  · rw [if_pos hmem] at hsplit
    obtain ⟨before, after, heq, hne⟩ := hsplit
    have hbefore : p.cellOf (before.foldl (forwarded u) s₀) = p.cellOf s :=
      cellOf_foldl_forwarded u p s₀ fun q hq ↦ hne q (List.mem_append_left _ hq)
    have halike := (queuesOnly_foldl (fun s q ↦ queuesOnly_forwarded u q s) s₀ before).toAlike
    have hwith : Withheld u p (before.foldl (forwarded u) s₀) ↔ Withheld u p s :=
      withheld_congr u p (by rw [halike.mb]) (by rw [halike.mb]) fun id ↦ (halike.link id).1
    rw [distributed, heq, List.foldl_append, List.foldl_cons,
      cellOf_foldl_forwarded u p _ fun q hq ↦ hne q (List.mem_append_right _ hq), forwarded]
    by_cases hw : Withheld u p s
    · rw [if_pos (hwith.mpr hw), if_neg (by simp [hw])]
      exact hbefore
    · rw [if_neg (hw ∘ hwith.mp), if_pos ⟨hmem, hw⟩, sent, cellOf_withCell]
      rw [hbefore]
  · rw [if_neg hmem] at hsplit
    rw [if_neg (by simp [hmem]), distributed, cellOf_foldl_forwarded u p _ hsplit]
    rfl

end Distribute

inductive Drains : Node → Node → Prop
  | done {s : Node} (h : s.chan.queue = []) : Drains s s
  | next {s s' s'' : Node} {u : InternalUpdate} {c : Channel InternalUpdate} (ord : HashOrder)
    (h : s.chan.recv = some (u, c))
    (hexec : exec [] (distribute ord u) { s with chan := c } = .done (.ok ()) [] s')
    (hrest : Drains s' s'') : Drains s s''

theorem exists_drains (ord : HashOrder) (s : Node) : ∃ s', Drains s s' := by
  generalize hlen : s.chan.queue.length = n
  induction n generalizing s with
  | zero => exact ⟨s, .done (List.length_eq_zero_iff.mp hlen)⟩
  | succ n ih =>
    cases hrecv : s.chan.recv with
    | none =>
      have hqueue : s.chan.queue = [] := by
        unfold Channel.recv at hrecv
        split at hrecv
        · assumption
        · cases hrecv
      exact ⟨s, .done hqueue⟩
    | some x =>
      obtain ⟨u, c⟩ := x
      have hstep := exec_distribute_done u { s with chan := c } ord
      have hchan : (distributed u { s with chan := c } ord).chan = c :=
        (queuesOnly_distributed u { s with chan := c } ord).chan
      rw [Channel.queue_of_recv hrecv, List.length_cons] at hlen
      obtain ⟨s', hrest⟩ := ih (distributed u { s with chan := c } ord) (by rw [hchan]; omega)
      exact ⟨s', .next ord hrecv hstep hrest⟩

structure Drained (s s' : Node) : Prop extends Alike s s' where
  queue : s'.chan.queue = []
  opened : s'.chan.closed = s.chan.closed
  routes : s'.world.client.routes =
    replay s.world.client.routes (s.chan.queue.map InternalUpdate.toChange)

theorem Drains.drained {s s' : Node} (h : Drains s s') : Drained s s' := by
  induction h with
  | @done s hqueue =>
    exact ⟨(Std.Refl.refl s : QueuesOnly s s).toAlike, hqueue, rfl, by rw [hqueue]; rfl⟩
  | @next s s' s'' u c ord hrecv hexec _ ih =>
    rw [exec_distribute_done] at hexec
    cases hexec
    have hstep := queuesOnly_distributed u { s with chan := c } ord
    refine ⟨⟨ih.mb.trans hstep.mb, fun id ↦ (hstep.link id).trans (ih.link id),
      fun id ↦ (ih.closed id).trans (hstep.closed id)⟩, ih.queue, ?_, ?_⟩
    · rw [ih.opened, hstep.chan, Channel.closed_recv hrecv]
    · rw [ih.routes, hstep.chan, hstep.client, Client.routes_call, apply_clientCall,
        Channel.queue_of_recv hrecv, List.map_cons, replay_cons]

theorem Drains.eq_of_nil {s s' : Node} (h : Drains s s') (hqueue : s.chan.queue = []) : s' = s := by
  cases h with
  | done => rfl
  | next ord hrecv =>
    rw [Channel.recv, hqueue] at hrecv
    cases hrecv

theorem Drains.eq_of_single {s s' : Node} {u : InternalUpdate} (h : Drains s s')
    (hqueue : s.chan.queue = [u]) : ∃ ord c, s' = distributed u { s with chan := c } ord := by
  cases h with
  | done hnil =>
    rw [hqueue] at hnil
    cases hnil
  | @next _ s₁ _ u' c ord hrecv hexec hrest =>
    rw [Channel.recv, hqueue] at hrecv
    cases hrecv
    rw [exec_distribute_done] at hexec
    cases hexec
    have hchan := (queuesOnly_distributed u { s with chan := ⟨s.chan.taken ++ [u], [], s.chan.closed⟩ }
      ord).chan
    exact ⟨ord, _, hrest.eq_of_nil (by rw [hchan])⟩

section Notify

variable (msg : GeneratedMessage) (s : Node)

def notified (s : Node) (p : Peer) : Node :=
  if (p.cellOf s).state = .established then p.sent s msg else s

theorem queuesOnly_notified (p : Peer) : QueuesOnly s (notified msg s p) := by
  unfold notified
  split
  · exact queuesOnly_sent p s msg
  · exact Std.Refl.refl s

theorem exec_notifyEstablished (peers : List Peer) :
    exec [] (notifyEstablished (·.sendMessage msg) peers) s =
      .done () [] (peers.foldl (notified msg) s) := by
  induction peers generalizing s with
  | nil => rfl
  | cons p rest ih =>
    simp only [notifyEstablished, exec_bind, exec_getState, Outcome.done_andThen,
      List.foldl_cons]
    by_cases hst : (p.cellOf s).state = .established
    · simp only [hst, if_true, exec_bind, exec_sendMessage, Outcome.done_andThen, ih, notified]
      rfl
    · simp only [hst, if_false, ih, notified]

def resubscribed (ord : HashOrder) (vni : Vni) (s : Node) : Node :=
  let s := (peerList ord s.world.mb.peers).foldl (notified msg) s
  { s with world := { s.world with client := (s.world.client.call (.clearRoutesForVni vni)).2 } }

theorem queuesOnly_resubscribed (ord : HashOrder) (vni : Vni) : QueuesOnly
    { s with world := { s.world with client := (s.world.client.call (.clearRoutesForVni vni)).2 } }
    (resubscribed msg ord vni s) := by
  have h := queuesOnly_foldl (fun s p ↦ queuesOnly_notified msg s p) s
    (peerList ord s.world.mb.peers)
  refine ⟨⟨h.mb, h.link, h.closed⟩, ?_, h.chan⟩
  rw [← h.client]
  rfl

theorem resubscribed_of_no_peers {ord : HashOrder} (h : s.world.mb.peers = ∅) (vni : Vni) :
    resubscribed msg ord vni s = { s with world := { s.world with
      client := (s.world.client.call (.clearRoutesForVni vni)).2 } } := by
  have hnone : peerList ord s.world.mb.peers = [] := by simp [peerList, h]
  rw [resubscribed, hnone]
  rfl

theorem exec_announceSubscription (ord : HashOrder) (vni : Vni) :
    exec [] (announceSubscription vni (·.sendMessage msg) (peerList ord s.world.mb.peers)) s =
      .done (if ((peerList ord s.world.mb.peers).foldl (notified msg) s).world.client.call
          (.clearRoutesForVni vni) |>.1 then .ok () else .error .client) []
        (resubscribed msg ord vni s) := by
  simp only [announceSubscription, exec_bind, exec_notifyEstablished, Outcome.done_andThen,
    exec_acquire, clashes_nil, Bool.false_eq_true, if_false, callClient, exec_update, exec_release,
    List.erase_cons_head]
  rfl

end Notify

def withSubscriptions (s : Node) (f : Finset Vni → Finset Vni) : Node where
  world := s.world.modifyMb fun mb ↦ { mb with mySubscriptions := f mb.mySubscriptions }
  chan := s.chan

section Subscriptions

variable (ord : HashOrder) {vni : Vni} {s : Node} {f : Finset Vni → Finset Vni}
variable {msg : GeneratedMessage}

theorem resubscribed_subscriptions :
    (resubscribed msg ord vni (withSubscriptions s f)).world.mb.mySubscriptions =
      f s.world.mb.mySubscriptions := by
  rw [(queuesOnly_resubscribed msg (withSubscriptions s f) ord vni).mb]
  rfl

theorem exec_announced (f : Finset Vni → Finset Vni) (msg : GeneratedMessage) :
    exec [] (announceSubscription vni (·.sendMessage msg)
      (peerList ord (withSubscriptions s f).world.mb.peers)) (withSubscriptions s f) =
    .done (if (s.world.client.call (.clearRoutesForVni vni)).1 then .ok () else .error .client) []
      (resubscribed msg ord vni (withSubscriptions s f)) := by
  rw [exec_announceSubscription]
  have hclient := (queuesOnly_foldl (fun s p ↦ queuesOnly_notified msg s p) (withSubscriptions s f)
    (peerList ord (withSubscriptions s f).world.mb.peers)).client
  rw [hclient]
  rfl

theorem exec_subscribe_new (hclient : s.world.mb.isServer = false)
    (hnew : vni ∉ s.world.mb.mySubscriptions) : exec [] (subscribe ord vni) s =
      .done (if (s.world.client.call (.clearRoutesForVni vni)).1 then .ok () else .error .client) []
        (resubscribed (.subscribe ⟨vni⟩) ord vni (withSubscriptions s (insert vni))) := by
  simp only [subscribe, exec_bind, exec_acquire, clashes_nil, Bool.false_eq_true, if_false,
    Outcome.done_andThen, exec_gets, hclient, exec_update, hnew, not_false_eq_true, decide_true,
    if_true, exec_release, List.erase_cons_head]
  exact exec_announced ord (insert vni) (.subscribe ⟨vni⟩)

theorem exec_unsubscribe_known (hclient : s.world.mb.isServer = false)
    (hknown : vni ∈ s.world.mb.mySubscriptions) : exec [] (unsubscribe ord vni) s =
      .done (if (s.world.client.call (.clearRoutesForVni vni)).1 then .ok () else .error .client) []
        (resubscribed (.unsubscribe ⟨vni⟩) ord vni (withSubscriptions s (·.erase vni))) := by
  simp only [unsubscribe, exec_bind, exec_acquire, clashes_nil, Bool.false_eq_true, if_false,
    Outcome.done_andThen, exec_gets, hclient, exec_update, hknown, decide_true,
    if_true, exec_release, List.erase_cons_head]
  exact exec_announced ord (·.erase vni) (.unsubscribe ⟨vni⟩)

end Subscriptions

theorem exec_subscribe (ord : HashOrder) (vni : Vni) {s : Node}
    (hclient : s.world.mb.isServer = false) : ∃ r, exec [] (subscribe ord vni) s =
      .done r [] (if vni ∈ s.world.mb.mySubscriptions then s
        else resubscribed (.subscribe ⟨vni⟩) ord vni (withSubscriptions s (insert vni))) := by
  by_cases hmem : vni ∈ s.world.mb.mySubscriptions
  · refine ⟨.ok (), ?_⟩
    have hsame : insert vni s.world.mb.mySubscriptions = s.world.mb.mySubscriptions :=
      Finset.insert_eq_of_mem hmem
    simp only [subscribe, exec_bind, exec_acquire, clashes_nil, Bool.false_eq_true, if_false,
      Outcome.done_andThen, exec_gets, hclient, exec_update, hmem, not_true_eq_false, decide_false,
      if_true, exec_release, List.erase_cons_head, pure_eq, exec_ret]
    simp only [World.modifyMb, hsame]
  · rw [if_neg hmem]
    exact ⟨_, exec_subscribe_new ord hclient hmem⟩

theorem exec_unsubscribe (ord : HashOrder) (vni : Vni) {s : Node}
    (hclient : s.world.mb.isServer = false) : ∃ r, exec [] (unsubscribe ord vni) s =
      .done r [] (if vni ∈ s.world.mb.mySubscriptions then
          resubscribed (.unsubscribe ⟨vni⟩) ord vni (withSubscriptions s (·.erase vni))
        else s) := by
  by_cases hmem : vni ∈ s.world.mb.mySubscriptions
  · rw [if_pos hmem]
    exact ⟨_, exec_unsubscribe_known ord hclient hmem⟩
  · refine ⟨.ok (), ?_⟩
    have hsame : s.world.mb.mySubscriptions.erase vni = s.world.mb.mySubscriptions :=
      Finset.erase_eq_of_notMem hmem
    simp only [unsubscribe, exec_bind, exec_acquire, clashes_nil, Bool.false_eq_true, if_false,
      Outcome.done_andThen, exec_gets, hclient, exec_update, hmem, decide_false, exec_release,
      List.erase_cons_head, pure_eq, exec_ret]
    simp only [World.modifyMb, hsame]

section Interleaved

variable {ι : Type} [DecidableEq ι]
variable {Starts : ι → Option InternalUpdate → Code (Except Error Unit) → Prop} {c : Tasks ι}
variable {i : ι} {ord : HashOrder} {vni : Vni}
variable (hheld : ∀ i, c.held i = []) (hidle : c.Idle i)

include hheld hidle

theorem run_subscribing (hstart : Starts i none (subscribe ord vni))
    (hclient : c.shared.world.mb.isServer = false)
    (hnew : vni ∉ c.shared.world.mb.mySubscriptions) :
    Run (fun d d' ↦ Pool.Step Starts d d' ∧ d'.shared.world.cell = d.shared.world.cell) c
      (c.set i ⟨[], announceSubscription vni (·.sendSubscribe vni)
        (peerList ord c.shared.world.mb.peers)⟩ (withSubscriptions c.shared (insert vni))) := by
  have hothers : ∀ j, j ≠ i → c.held j = [] := fun j _ ↦ hheld j
  have hfirst : Pool.Step Starts c (c.set i ⟨[], subscribe ord vni⟩ c.shared) := by
    have hstep := Pool.Step.start i _ hidle hstart
    rwa [hheld] at hstep
  refine .cons ⟨hfirst, rfl⟩ (.cons ⟨Pool.step_lock hothers rfl _, rfl⟩ ?_)
  refine .cons ⟨Pool.step_act hothers _ _, rfl⟩ ?_
  simp only [hclient]
  refine .cons ⟨Pool.step_act hothers _ _, rfl⟩ ?_
  simp only [id_eq, hnew, not_false_eq_true, decide_true]
  refine .cons ⟨Pool.step_act hothers _ _, rfl⟩ ?_
  exact .cons ⟨Pool.step_unlock hothers _ _ _, rfl⟩ .refl

theorem run_unsubscribing (hstart : Starts i none (unsubscribe ord vni))
    (hclient : c.shared.world.mb.isServer = false)
    (hknown : vni ∈ c.shared.world.mb.mySubscriptions) :
    Run (fun d d' ↦ Pool.Step Starts d d' ∧ d'.shared.world.cell = d.shared.world.cell) c
      (c.set i ⟨[], announceSubscription vni (·.sendUnsubscribe vni)
        (peerList ord c.shared.world.mb.peers)⟩ (withSubscriptions c.shared (·.erase vni))) := by
  have hothers : ∀ j, j ≠ i → c.held j = [] := fun j _ ↦ hheld j
  have hfirst : Pool.Step Starts c (c.set i ⟨[], unsubscribe ord vni⟩ c.shared) := by
    have hstep := Pool.Step.start i _ hidle hstart
    rwa [hheld] at hstep
  refine .cons ⟨hfirst, rfl⟩ (.cons ⟨Pool.step_lock hothers rfl _, rfl⟩ ?_)
  refine .cons ⟨Pool.step_act hothers _ _, rfl⟩ ?_
  simp only [hclient]
  refine .cons ⟨Pool.step_act hothers _ _, rfl⟩ ?_
  simp only [id_eq, hknown, decide_true]
  refine .cons ⟨Pool.step_act hothers _ _, rfl⟩ ?_
  exact .cons ⟨Pool.step_unlock hothers _ _ _, rfl⟩ .refl

end Interleaved

end MetalBond
