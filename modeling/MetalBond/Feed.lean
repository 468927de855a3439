import MetalBond.Async.Outlook
import MetalBond.Collections.CatchUp
import MetalBond.HandlePeer
import MetalBond.Ledger

namespace MetalBond

open Async Task Collections HashMap

/-- What a message tells its receiver about a route. -/
def GeneratedMessage.change? (msg : GeneratedMessage) : Option (Change Route) :=
  msg.route?.map fun x ↦ changeOf x.1 x.2

@[simp] theorem change?_updateMessage (action : UpdateAction) (vni : Vni) (dest : Destination)
    (nh : NextHop) :
    (updateMessage action vni dest nh).change? = some (changeOf action (vni, dest, nh)) := by
  simp [GeneratedMessage.change?]

/-- The lists of messages apart, the nodes differ in nothing that concerns a connection. -/
structure Alike (s s' : Node) : Prop where
  mb : s'.world.mb = s.world.mb
  link : ∀ id, (s.world.cell id).SameLink (s'.world.cell id)
  closed : ∀ id, (s'.world.cell id).tx.closed = (s.world.cell id).tx.closed

theorem PeerCell.closed_trySend (c : PeerCell) (msg : GeneratedMessage) :
    (c.trySend msg).2.tx.closed = c.tx.closed := by
  unfold trySend
  cases hsend : c.tx.trySend msg with
  | ok tx =>
    change tx.closed = c.tx.closed
    rw [Mailbox.toChannel_of_trySend hsend]
    rfl
  | error e => cases e <;> rfl

namespace Peer

variable (p : Peer) (s : Node)

def received : List (Change Route) := (p.cellOf s).tx.history.filterMap GeneratedMessage.change?

structure Linked : Prop where
  known : s.world.mb.peers.lookup p.remoteAddr = some p
  unique : ∀ addr q, s.world.mb.peers.lookup addr = some q → q.id = p.id → addr = p.remoteAddr

structure HasRoom : Prop where
  connected : (p.cellOf s).tx.closed = false
  room : (p.cellOf s).tx.queue.length < peerTxBufferSize

def sent (msg : GeneratedMessage) : Node := p.withCell s ((p.cellOf s).trySend msg).2

theorem alike_sent (msg : GeneratedMessage) : Alike s (p.sent s msg) := by
  have hcell : ∀ id, (p.sent s msg).world.cell id = s.world.cell id ∨
      id = p.id ∧ (p.sent s msg).world.cell id = ((s.world.cell id).trySend msg).2 := by
    intro id
    by_cases hid : id = p.id
    · subst hid
      exact Or.inr ⟨rfl, p.cellOf_withCell s _⟩
    · exact Or.inl (World.setCell_cell_of_ne _ hid _)
  refine ⟨rfl, fun id ↦ ?_, fun id ↦ ?_⟩
  · rcases hcell id with h | ⟨-, h⟩ <;> rw [h]
    · exact .refl _
    · exact PeerCell.sameLink_trySend _ _
  · rcases hcell id with h | ⟨-, h⟩ <;> rw [h]
    exact PeerCell.closed_trySend _ _

/-- The part of the connection's loop that takes a message off the queue. -/
def writeOutgoing : Code (Except Error Unit) := do
  modify p.takeOutgoing
  return .ok ()

theorem received_takeOutgoing :
    p.received { s with world := p.takeOutgoing s.world } = p.received s ∧
      Alike s { s with world := p.takeOutgoing s.world } := by
  have hrefl : Alike s s := ⟨rfl, fun _ ↦ .refl _, fun _ ↦ rfl⟩
  unfold takeOutgoing
  cases hrecv : (s.world.cell p.id).tx.recv with
  | none => exact ⟨rfl, hrefl⟩
  | some x =>
    obtain ⟨msg, tx⟩ := x
    obtain ⟨hhistory, hclosed⟩ := Mailbox.history_of_recv hrecv
    have hcell := s.world.modifyCell_cell p.id fun c ↦ { c with tx := tx }
    refine ⟨?_, rfl, fun id ↦ ?_, fun id ↦ ?_⟩
    · simp only [received, cellOf, hcell, hhistory]
    · by_cases hid : id = p.id
      · subst hid
        rw [hcell]
        exact .refl _
      · rw [s.world.modifyCell_cell_of_ne hid]
        exact .refl _
    · by_cases hid : id = p.id
      · subst hid
        rw [hcell]
        exact hclosed
      · rw [s.world.modifyCell_cell_of_ne hid]

variable {p s}

theorem HasRoom.trySend (h : p.HasRoom s) (msg : GeneratedMessage) :
    ((p.cellOf s).trySend msg).1 = .ok () ∧
      p.received (p.sent s msg) = p.received s ++ msg.change?.toList := by
  obtain ⟨tx, hsend, htx⟩ := PeerCell.trySend_of_room h.connected h.room msg
  refine ⟨by rw [hsend], ?_⟩
  simp only [received, sent, cellOf_withCell, hsend, htx, Channel.history_push,
    List.filterMap_append]
  cases hc : msg.change? <;> simp [hc]

theorem HasRoom.history_sent (h : p.HasRoom s) (msg : GeneratedMessage) :
    (p.cellOf (p.sent s msg)).tx.history = (p.cellOf s).tx.history ++ [msg] := by
  obtain ⟨tx, hsend, htx⟩ := PeerCell.trySend_of_room h.connected h.room msg
  rw [sent, cellOf_withCell, hsend]
  simp only [htx, Channel.history_push]

theorem sent_of_not_hasRoom (h : ¬ p.HasRoom s) (msg : GeneratedMessage) : p.sent s msg = s := by
  have hcell : ((p.cellOf s).trySend msg).2 = p.cellOf s := by
    unfold PeerCell.trySend
    cases hsend : (p.cellOf s).tx.trySend msg with
    | error e => cases e <;> rfl
    | ok tx =>
      unfold Mailbox.trySend at hsend
      split at hsend
      · cases hsend
      · next hopen =>
        split at hsend
        · next hroom => exact absurd ⟨Bool.eq_false_iff.mpr hopen, hroom⟩ h
        · cases hsend
  rw [sent, hcell, withCell_cellOf]

theorem received_of_no_change {msg : GeneratedMessage} (h : msg.change? = none) :
    p.received (p.sent s msg) = p.received s := by
  simp only [received, sent, cellOf_withCell]
  unfold PeerCell.trySend
  cases hsend : (p.cellOf s).tx.trySend msg with
  | ok tx =>
    have htx := Mailbox.toChannel_of_trySend hsend
    simp [htx, h]
  | error e => cases e <;> rfl

theorem received_sent_of_ne {q : Peer} (h : q.id ≠ p.id) (msg : GeneratedMessage) :
    p.received (q.sent s msg) = p.received s := by
  have hcell : p.cellOf (q.sent s msg) = p.cellOf s := World.setCell_cell_of_ne _ h.symm _
  simp only [received, hcell]

theorem Linked.split (h : p.Linked s) (ord : HashOrder) (vni : Vni) :
    if p.remoteAddr ∈ valueAt s.world.mb.subscribers vni then
      ∃ before after, peersToNotify ord vni s.world.mb = before ++ p :: after ∧
        ∀ q ∈ before ++ after, q.id ≠ p.id
    else ∀ q ∈ peersToNotify ord vni s.world.mb, q.id ≠ p.id := by
  have hother : ∀ addrs : List SocketAddr, p.remoteAddr ∉ addrs →
      ∀ q ∈ addrs.filterMap s.world.mb.peers.lookup, q.id ≠ p.id := by
    intro addrs hnot q hq hid
    obtain ⟨addr, haddr, hlookup⟩ := List.mem_filterMap.mp hq
    exact hnot (h.unique addr q hlookup hid ▸ haddr)
  split
  · next hmem =>
    obtain ⟨before, after, hsplit⟩ := List.append_of_mem ((ord.mem_list _ _).mpr hmem)
    have hnd := ord.nodup (valueAt s.world.mb.subscribers vni)
    rw [hsplit, List.nodup_middle] at hnd
    refine ⟨before.filterMap s.world.mb.peers.lookup, after.filterMap s.world.mb.peers.lookup,
      ?_, ?_⟩
    · simp only [peersToNotify, hsplit, List.filterMap_append, List.filterMap_cons, h.known]
    · rw [← List.filterMap_append]
      exact hother _ (List.nodup_cons.mp hnd).1
  · next hmem => exact hother _ (by rwa [ord.mem_list])

end Peer

/-- A peer is to know the wanted routes of a table: from the updates that the distributor
forwards and from a snapshot that its own task sends once it has entered a certain state. -/
structure Feed where
  peer : Peer
  table : MetalBondState → RouteTable
  /-- The routes of the table before the first update. -/
  first : Set Route
  Wanted : Route → Prop
  /-- The wanted routes whose updates are not lost on the peer. -/
  Kept : Route → Prop
  decKept : DecidablePred Kept
  wanted : ∀ {r}, Kept r → Wanted r
  Entered : Node → Prop
  /-- What holds of the node at all times. -/
  Calm : Node → Prop
  /-- What holds of all updates. -/
  Clear : InternalUpdate → Prop
  linked : ∀ {s}, Calm s → peer.Linked s
  notNat : ∀ {u}, Clear u → u.nextHop.hopType = .nat → u.sourcePeer ≠ some peer.remoteAddr
  noServer : (∀ {s}, Calm s → (peer.cellOf s).isRemoteServer = false) ∨
    (∀ {u}, Clear u → u.sourcePeer = none) ∧ ∀ {s}, Calm s → s.world.mb.isServer = false
  calm_alike : ∀ {s s'}, Alike s s' → Calm s → Calm s'
  entered_alike : ∀ {s s'}, Alike s s' → (Entered s' ↔ Entered s)
  calm_chan : ∀ {s : Node} {ch}, Calm s → Calm { s with chan := ch }
  entered_chan : ∀ {s : Node} {ch}, Entered { s with chan := ch } ↔ Entered s

/-- The state of the peer's own task: what is left to send of the snapshot, once taken. -/
inductive LinkStage
  | fresh
  | entered
  | looking
  | sending (rest : List Route)

inductive DistStage
  | idle
  | popped (u : InternalUpdate)
  | owing (u : InternalUpdate)

def LinkStage.unsent : LinkStage → Option (List Route)
  | sending rest => some rest
  | _ => none

def DistStage.inHand : DistStage → List InternalUpdate
  | idle => []
  | popped u | owing u => [u]

def notifySubscribers (ord : HashOrder) (u : InternalUpdate) : Code (Except Error Unit) := do
  let peers ← gets fun w ↦ peersToNotify ord u.vni w.mb
  forwardAll u peers
  release .metalbondState .read
  return .ok ()

namespace Feed

variable (F : Feed)

attribute [instance] Feed.decKept

structure Quiets (s s' : Node) : Prop where
  calm : F.Calm s → F.Calm s'
  entered : F.Entered s' ↔ F.Entered s
  received : F.peer.received s' = F.peer.received s
  chan : s'.chan = s.chan

structure Tells (d : Change Route) (s s' : Node) : Prop where
  calm : F.Calm s → F.Calm s'
  entered : F.Entered s' ↔ F.Entered s
  received : F.peer.received s' = F.peer.received s ++ [d]
  chan : s'.chan = s.chan

structure Publishes (us : List InternalUpdate) (s s' : Node) : Prop where
  calm : F.Calm s → F.Calm s'
  entered : F.Entered s' ↔ F.Entered s
  received : F.peer.received s' = F.peer.received s
  clear : ∀ u ∈ us, F.Clear u
  chan : s'.chan = s.chan.pushAll us

def Background (s s' : Node) : Prop := ∃ us, F.Publishes us s s'

variable {F} {s s' : Node}

instance : Std.Refl F.Quiets := ⟨fun _ ↦ ⟨id, Iff.rfl, rfl, rfl⟩⟩

theorem Quiets.publishes (h : F.Quiets s s') : F.Publishes [] s s' :=
  ⟨h.calm, h.entered, h.received, nofun, h.chan⟩

instance : Std.Refl F.Background := ⟨fun s ↦ ⟨[], (Std.Refl.refl s : F.Quiets s s).publishes⟩⟩

theorem background_send {u : InternalUpdate} (hu : F.Clear u) (s : Node) :
    F.Background s { s with chan := (s.chan.send u).2 } := by
  by_cases hc : s.chan.closed
  · have hsend : (s.chan.send u).2 = s.chan := by simp [Channel.send, hc]
    rw [hsend]
    exact Std.Refl.refl s
  · rw [Channel.send_of_open (Bool.eq_false_iff.mpr hc)]
    exact ⟨[u], F.calm_chan, F.entered_chan, rfl, by simpa using hu, rfl⟩

theorem quiets_of_alike (h : Alike s s') (hreceived : F.peer.received s' = F.peer.received s)
    (hchan : s'.chan = s.chan) : F.Quiets s s' :=
  ⟨F.calm_alike h, F.entered_alike h, hreceived, hchan⟩

theorem quiets_sent {q : Peer} (hq : q.id ≠ F.peer.id) (msg : GeneratedMessage) :
    F.Quiets s (q.sent s msg) :=
  quiets_of_alike (q.alike_sent s msg) (Peer.received_sent_of_ne hq msg) rfl

theorem quiets_sent_other {msg : GeneratedMessage} (h : msg.change? = none) :
    F.Quiets s (F.peer.sent s msg) :=
  quiets_of_alike (F.peer.alike_sent s msg) (Peer.received_of_no_change h) rfl

theorem tells_sent (h : F.peer.HasRoom s) {msg : GeneratedMessage} {d : Change Route}
    (hd : msg.change? = some d) : F.Tells d s (F.peer.sent s msg) :=
  ⟨F.calm_alike (F.peer.alike_sent s msg), F.entered_alike (F.peer.alike_sent s msg),
    by rw [(h.trySend msg).2, hd]; rfl, rfl⟩

theorem quiets_takeOutgoing (s : Node) :
    F.Quiets s { s with world := F.peer.takeOutgoing s.world } := by
  obtain ⟨hreceived, halike⟩ := F.peer.received_takeOutgoing s
  exact quiets_of_alike halike hreceived rfl

theorem confined_writeOutgoing : Confined F.Background F.peer.writeOutgoing :=
  .bind (.modify fun s ↦ ⟨[], (quiets_takeOutgoing s).publishes⟩) fun _ ↦ .ret _

theorem quiets_client (call : ClientCall) (s : Node) :
    F.Quiets s { s with world := { s.world with client := (s.world.client.call call).2 } } :=
  quiets_of_alike ⟨rfl, fun _ ↦ .refl _, fun _ ↦ rfl⟩ rfl rfl

theorem quiets_shutdown (s : Node) : F.Quiets s { s with
    world := s.world.modifyCell F.peer.id fun c ↦ { c with shutdownSignal := true } } := by
  have hcell := s.world.modifyCell_cell F.peer.id fun c ↦ { c with shutdownSignal := true }
  refine quiets_of_alike ⟨rfl, fun id ↦ ?_, fun id ↦ ?_⟩ ?_ rfl
  · by_cases hid : id = F.peer.id
    · subst hid
      rw [hcell]
      exact .refl _
    · rw [s.world.modifyCell_cell_of_ne hid]
      exact .refl _
  · by_cases hid : id = F.peer.id
    · subst hid
      rw [hcell]
    · rw [s.world.modifyCell_cell_of_ne hid]
  · simp only [Peer.received, Peer.cellOf, hcell]

def delivery (F : Feed) : Protocol (Option InternalUpdate) Lock World InternalUpdate where
  Knows _ _ s := F.Calm s ∧ F.peer.HasRoom s
  Step σ _ s σ' s' := σ' = σ ∧ F.Quiets s s' ∨
    ∃ u, σ = some u ∧ σ' = none ∧ F.Tells u.toChange s s'
  Idle σ := σ = none
  Start _ _ _ := False

theorem quiet_delivery (σ : Option InternalUpdate) :
    Quiet F.delivery σ F.Quiets fun _ ↦ True where
  act _ h := Or.inl ⟨rfl, h⟩
  acquire _ _ := Or.inl ⟨rfl, Std.Refl.refl _⟩
  release _ _ := Or.inl ⟨rfl, Std.Refl.refl _⟩

theorem follows_sendUpdate (u : InternalUpdate) :
    Follows F.delivery (fun σ _ ↦ σ = none)
      (F.peer.sendUpdate u.action u.vni u.destination u.nextHop) (some u) := by
  refine .update fun s hs ↦ ⟨none, Or.inr ⟨u, rfl, rfl, ?_⟩, rfl⟩
  exact tells_sent hs.2 (change?_updateMessage ..)

theorem follows_sourceIsServer {u : InternalUpdate} (hu : F.Clear u) (σ : Option InternalUpdate) :
    Follows F.delivery (fun σ' b ↦ σ' = σ ∧
      ((∀ {s}, F.Calm s → (F.peer.cellOf s).isRemoteServer = false) ∨ b = false))
      (sourceIsServer u.sourcePeer) σ := by
  rcases F.noServer with hserver | ⟨hlocal, hclient⟩
  · refine (quiet_sourceIsServer (quiet_delivery σ) (fun _ ↦ trivial) _).mono ?_
    exact fun σ' b hσ' ↦ ⟨hσ', Or.inl hserver⟩
  · rw [hlocal hu]
    exact .gets fun s hs ↦ ⟨σ, Or.inl ⟨rfl, Std.Refl.refl s⟩, rfl, Or.inr (hclient hs.1)⟩

theorem follows_forward {u : InternalUpdate} (hu : F.Clear u) :
    Follows F.delivery (fun σ _ ↦ σ = none) (forward u F.peer) (some u) := by
  unfold forward
  rw [if_neg fun h ↦ F.notNat hu h.2 h.1.symm]
  refine (follows_sourceIsServer hu _).bind fun σ source h ↦ ?_
  obtain ⟨rfl, hflag⟩ := h
  have hread : Follows F.delivery (fun σ target ↦ σ = some u ∧ (source && target) = false)
      (reading (.isRemoteServer F.peer.id) fun w ↦ (w.cell F.peer.id).isRemoteServer)
      (some u) := by
    have hgets : Follows F.delivery (fun σ target ↦ σ = some u ∧ (source && target) = false)
        (gets fun w ↦ (w.cell F.peer.id).isRemoteServer) (some u) := by
      refine .gets fun s hs ↦ ⟨some u, Or.inl ⟨rfl, Std.Refl.refl s⟩, rfl, ?_⟩
      rcases hflag with htarget | hsource
      · exact Bool.and_eq_false_imp.mpr fun _ ↦ htarget hs.1
      · rw [hsource, Bool.false_and]
    refine ((quiet_delivery _).acquires trivial).andThen fun _ ↦ hgets.bind fun σ target h ↦ ?_
    obtain ⟨rfl, h⟩ := h
    exact ((quiet_delivery _).releases trivial).andThen fun _ ↦ .ret ⟨rfl, h⟩
  refine hread.bind fun σ target h ↦ ?_
  obtain ⟨rfl, hnone⟩ := h
  simp only [hnone, Bool.false_eq_true, if_false]
  exact (follows_sendUpdate u).andThen fun _ ↦ .ret rfl

theorem follows_forwardAll_of_ne {u : InternalUpdate} (σ : Option InternalUpdate)
    {peers : List Peer} (h : ∀ q ∈ peers, q.id ≠ F.peer.id) :
    Follows F.delivery (fun σ' _ ↦ σ' = σ) (forwardAll u peers) σ :=
  quiet_forwardAll (quiet_delivery σ) (fun _ ↦ trivial) u fun q hq _ msg ↦ quiets_sent (h q hq) msg

theorem follows_forwardAll {u : InternalUpdate} (hu : F.Clear u) {before after : List Peer}
    (h : ∀ q ∈ before ++ after, q.id ≠ F.peer.id) :
    Follows F.delivery (fun σ _ ↦ σ = none) (forwardAll u (before ++ F.peer :: after))
      (some u) := by
  induction before with
  | nil => exact (follows_forward hu).andThen fun _ ↦ follows_forwardAll_of_ne none h
  | cons q before ih =>
    have hq := h q List.mem_cons_self
    refine (quiet_forward (quiet_delivery (some u)) (fun _ ↦ trivial) u
      fun _ msg ↦ quiets_sent hq msg).andThen fun _ ↦ ?_
    exact ih fun q' hq' ↦ h q' (List.mem_cons_of_mem q hq')

inductive Distributing (F : Feed) : DistStage → Code (Except Error Unit) → Prop
  | popped (ord : HashOrder) (u : InternalUpdate) : Distributing F (.popped u) (distribute ord u)
  | locked (ord : HashOrder) (u : InternalUpdate) : Distributing F (.popped u)
    (act (fun w ↦ { w with client := (w.client.call (clientCall u)).2 })
      fun _ ↦ notifySubscribers ord u)
  | lookup (ord : HashOrder) (u : InternalUpdate) :
    Distributing F (.popped u) (notifySubscribers ord u)
  | owing (u : InternalUpdate) (t : Code (Except Error Unit))
    (h : Follows F.delivery (fun σ _ ↦ σ = none) t (some u)) : Distributing F (.owing u) t
  | idle (t : Code (Except Error Unit))
    (h : Follows F.delivery (fun σ _ ↦ σ = none) t none) : Distributing F .idle t

inductive DistEffect (F : Feed) (t : Code (Except Error Unit)) :
    DistStage → Node → DistStage → Node → Prop
  | quiet {d s s'} (h : F.Quiets s s') : DistEffect F t d s d s'
  | owe {u s} (h : F.peer.remoteAddr ∈ valueAt s.world.mb.subscribers u.vni) :
    DistEffect F t (.popped u) s (.owing u) s
  | skip {ord u s} (hcode : t = notifySubscribers ord u)
    (h : F.peer.remoteAddr ∉ valueAt s.world.mb.subscribers u.vni) :
    DistEffect F t (.popped u) s .idle s
  | deliver {u s s'} (h : F.Tells u.toChange s s') : DistEffect F t (.owing u) s .idle s'

theorem follows_notified {u : InternalUpdate} {peers : List Peer} {σ : Option InternalUpdate}
    (h : Follows F.delivery (fun σ _ ↦ σ = none) (forwardAll u peers) σ) :
    Follows F.delivery (fun σ _ ↦ σ = none) ((do
      forwardAll u peers
      release .metalbondState .read
      return .ok ()) : Code (Except Error Unit)) σ :=
  h.andThen fun _ ↦ ((quiet_delivery none).releases trivial).andThen fun _ ↦ .ret rfl

theorem Distributing.move {d : DistStage} {t t' : Code (Except Error Unit)}
    {e : Option (LockEvent Lock)} (h : F.Distributing d t) (hclear : ∀ u ∈ d.inHand, F.Clear u)
    (hmove : Move t s e t' s') (hcalm : F.Calm s) (hroom : F.peer.HasRoom s) :
    ∃ d', F.DistEffect t d s d' s' ∧ F.Distributing d' t' := by
  cases h with
  | popped ord u =>
    cases hmove
    exact ⟨.popped u, .quiet (Std.Refl.refl s), .locked ord u⟩
  | locked ord u =>
    cases hmove
    exact ⟨.popped u, .quiet (quiets_client ..), .lookup ord u⟩
  | lookup ord u =>
    cases hmove
    have hsplit := (F.linked hcalm).split ord u.vni
    have hu := hclear u List.mem_cons_self
    split at hsplit
    · next hlisted =>
      obtain ⟨before, after, heq, hne⟩ := hsplit
      have hall := follows_forwardAll hu hne
      rw [← heq] at hall
      exact ⟨.owing u, .owe hlisted, .owing u _ (follows_notified hall)⟩
    · next hunlisted =>
      refine ⟨.idle, .skip rfl hunlisted, .idle _ (follows_notified ?_)⟩
      exact follows_forwardAll_of_ne none hsplit
  | owing u t h =>
    obtain ⟨σ, hstep, ht'⟩ := h.move hmove ⟨hcalm, hroom⟩
    rcases hstep with ⟨rfl, hquiet⟩ | ⟨u', hσ, rfl, htells⟩
    · exact ⟨.owing u, .quiet hquiet, .owing u t' ht'⟩
    · cases hσ
      exact ⟨.idle, .deliver htells, .idle t' ht'⟩
  | idle t h =>
    obtain ⟨σ, hstep, ht'⟩ := h.move hmove ⟨hcalm, hroom⟩
    rcases hstep with ⟨rfl, hquiet⟩ | ⟨u', hσ, rfl, htells⟩
    · exact ⟨.idle, .quiet hquiet, .idle t' ht'⟩
    · cases hσ

end Feed

end MetalBond
