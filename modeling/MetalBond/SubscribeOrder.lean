import MetalBond.Deliveries
import MetalBond.TableExec

namespace MetalBond.SubscribeOrder

open Async Task Collections HashMap Peer

inductive Transmits (p : Peer) : Node → Node → Prop
  | done {s : Node} (h : (p.cellOf s).tx.queue = []) : Transmits p s s
  | next {s s' : Node} (h : (p.cellOf s).tx.queue ≠ [])
    (hrest : Transmits p { s with world := p.takeOutgoing s.world } s') : Transmits p s s'

structure Announcement where
  source : Peer
  destination : Destination
  nextHop : NextHop

namespace Announcement

variable (a : Announcement) (vni : Vni)

def route : Route := (vni, a.destination, a.nextHop)

def key : PeerKey := some a.source.remoteAddr

def message : Pb.Update :=
  ⟨UpdateAction.add.toI32, vni, some a.destination.toPb, some a.nextHop.toPb⟩

def toUpdate : InternalUpdate := ⟨.add, vni, a.destination, a.nextHop, a.key⟩

end Announcement

/-- Routes are learned one by one. After each the distributor empties its channel, and the
connection of the peer in question its queue. -/
inductive Learns (p : Peer) (vni : Vni) : Node → List Announcement → Node → Prop
  | nil (s : Node) : Learns p vni s [] s
  | cons {s s₁ s₂ s₃ s₄ : Node} {a : Announcement} {as : List Announcement}
    {r : Except Error Unit}
    (hexec : exec [] (a.source.processUpdate (a.message vni)) s = .done r [] s₁)
    (hdrain : Drains s₁ s₂) (htransmit : Transmits p s₂ s₃) (hrest : Learns p vni s₃ as s₄) :
    Learns p vni s (a :: as) s₄

def Subscribes (p : Peer) (vni : Vni) (s s' : Node) : Prop :=
  ∃ ord r, exec [] (p.processSubscribe ord ⟨vni⟩) s = .done r [] s'

def added (p : Peer) (s s' : Node) : Set Route :=
  {r | .add r ∈ (p.received s').drop (p.received s).length}

/-- The peer is sent the same routes whether it subscribes before or after they are learned. -/
def SameEitherWay (p : Peer) (vni : Vni) (as : List Announcement) (s : Node) : Prop :=
  ∀ s₁ s₂ t₁ t₂, Subscribes p vni s s₁ → Learns p vni s₁ as s₂ →
    Learns p vni s as t₁ → Subscribes p vni t₁ t₂ → added p s s₂ = added p s t₂

structure Steady (p : Peer) (s : Node) : Prop extends p.Linked s where
  connected : (p.cellOf s).tx.closed = false
  sent : (p.cellOf s).tx.queue = []
  drained : s.chan.queue = []
  opened : s.chan.closed = false

structure Start (p : Peer) (vni : Vni) (s : Node) : Prop extends Steady p s where
  unsubscribed : p.remoteAddr ∉ valueAt s.world.mb.subscribers vni
  unlearned : ∀ r : Route, r.1 = vni → s.world.mb.routeTable.sources r = ∅

variable {p : Peer} {vni : Vni} {s s' : Node} {a : Announcement} {as : List Announcement}

theorem Transmits.effect (h : Transmits p s s') :
    Alike s s' ∧ p.received s' = p.received s ∧ s'.chan = s.chan ∧ (p.cellOf s').tx.queue = [] := by
  induction h with
  | done hqueue => exact ⟨⟨rfl, fun _ ↦ .refl _, fun _ ↦ rfl⟩, rfl, rfl, hqueue⟩
  | @next s s' _ _ ih =>
    obtain ⟨halike, hreceived, hchan, hqueue⟩ := ih
    obtain ⟨hreceived', halike'⟩ := p.received_takeOutgoing s
    refine ⟨⟨halike.mb.trans halike'.mb, fun id ↦ (halike'.link id).trans (halike.link id),
      fun id ↦ (halike.closed id).trans (halike'.closed id)⟩, ?_, hchan, hqueue⟩
    rw [hreceived, hreceived']

structure Kept (p : Peer) (sent : List (Change Route)) (s s' : Node) : Prop where
  steady : Steady p s'
  peers : s'.world.mb.peers = s.world.mb.peers
  server : s'.world.mb.isServer = s.world.mb.isServer
  subscriptions : s'.world.mb.mySubscriptions = s.world.mb.mySubscriptions
  subscribers : s'.world.mb.subscribers = s.world.mb.subscribers
  flags : ∀ id, (s'.world.cell id).isRemoteServer = (s.world.cell id).isRemoteServer
  received : p.received s' = p.received s ++ sent

theorem Kept.refl (h : Steady p s) : Kept p [] s s :=
  ⟨h, rfl, rfl, rfl, rfl, fun _ ↦ rfl, (List.append_nil _).symm⟩

theorem Kept.trans {s'' : Node} {sent sent' : List (Change Route)} (h : Kept p sent s s')
    (h' : Kept p sent' s' s'') : Kept p (sent ++ sent') s s'' where
  steady := h'.steady
  peers := h'.peers.trans h.peers
  server := h'.server.trans h.server
  subscriptions := h'.subscriptions.trans h.subscriptions
  subscribers := h'.subscribers.trans h.subscribers
  flags id := (h'.flags id).trans (h.flags id)
  received := by rw [h'.received, h.received, List.append_assoc]

def Delivers (p : Peer) (vni : Vni) (a : Announcement) (s : Node) : Prop :=
  p.remoteAddr ∈ valueAt s.world.mb.subscribers vni ∧ ¬ Withheld (a.toUpdate vni) p s

instance : Decidable (Delivers p vni a s) := inferInstanceAs (Decidable (_ ∧ _))

def Accepted (vni : Vni) (a : Announcement) (s : Node) : Prop := ¬ a.source.Ignores vni s

instance : Decidable (Accepted vni a s) := inferInstanceAs (Decidable (¬ _))

theorem received_eq {s s' : Node} (h : p.cellOf s' = p.cellOf s) : p.received s' = p.received s := by
  rw [received, received, h]

theorem Steady.hasRoom (h : Steady p s) : p.HasRoom s := ⟨h.connected, by rw [h.sent]; decide⟩

theorem updates_add (s : Node) : changeUpdates .add vni a.destination a.nextHop a.key
    (applyUpdate .add vni a.destination a.nextHop a.key s.world).1 =
      if a.key ∈ s.world.mb.routeTable.sources (a.route vni) then [] else [a.toUpdate vni] := by
  by_cases hmem : a.key ∈ s.world.mb.routeTable.sources (a.route vni)
  · rw [applyUpdate_of_mem hmem, if_pos hmem]
    rfl
  · have hnew : (addNextHop vni a.destination a.nextHop a.key s.world).1 = true :=
      decide_eq_true hmem
    rw [if_neg hmem]
    simp only [applyUpdate, hnew, if_true]
    rfl

/-- The announcement is news: it counts, and the table does not have it yet. -/
def News (vni : Vni) (a : Announcement) (s : Node) : Prop :=
  Accepted vni a s ∧ a.key ∉ s.world.mb.routeTable.sources (a.route vni)

instance : Decidable (News vni a s) := inferInstanceAs (Decidable (_ ∧ _))

def sentFor (p : Peer) (vni : Vni) (a : Announcement) (s : Node) : List (Change Route) :=
  if News vni a s ∧ Delivers p vni a s then [.add (a.route vni)] else []

structure Stored (vni : Vni) (a : Announcement) (s s₁ : Node) : Prop where
  world : ∃ t : RouteTable, s₁.world = s.world.modifyMb (fun mb ↦ { mb with routeTable := t }) ∧
    ∀ r, t.sources r = if Accepted vni a s ∧ r = a.route vni
      then insert a.key (s.world.mb.routeTable.sources r) else s.world.mb.routeTable.sources r
  queue : s₁.chan.queue = if News vni a s then [a.toUpdate vni] else []
  opened : s₁.chan.closed = false

theorem stored_of_exec (h : Steady p s) {s₁ : Node} {r : Except Error Unit}
    (hexec : exec [] (a.source.processUpdate (a.message vni)) s = .done r [] s₁) :
    Stored vni a s s₁ := by
  have hshared := shared_processUpdate a.source s (a.message vni)
  have hparse : parseUpdate (a.message vni) = .ok (.add, vni, a.destination, a.nextHop) :=
    parseUpdate_updateMessage ..
  rw [hexec, Outcome.shared_done, updated, hparse] at hshared
  by_cases hig : a.source.Ignores vni s
  · have hacc : ¬ Accepted vni a s := not_not_intro hig
    simp only [if_pos hig] at hshared
    subst hshared
    exact ⟨⟨s₁.world.mb.routeTable, rfl, fun r ↦ by rw [if_neg (by simp [hacc])]⟩,
      by rw [h.drained, if_neg (by simp [News, hacc])], h.opened⟩
  · have hacc : Accepted vni a s := hig
    simp only [if_neg hig] at hshared
    subst hshared
    obtain ⟨t, ht⟩ := @routesOnly_applyUpdate vni a.destination a.nextHop a.key s.world .add
    refine ⟨⟨t, ht, fun r ↦ ?_⟩, ?_, ?_⟩
    · have hsources := @sources_applyUpdate r vni a.destination a.nextHop a.key s.world .add
      rw [ht] at hsources
      rw [show t.sources r = _ from hsources]
      by_cases hr : r = (vni, a.destination, a.nextHop)
      · subst hr
        rw [if_pos rfl, if_pos ⟨hacc, rfl⟩]
      · rw [if_neg hr, if_neg fun h ↦ hr h.2]
    · have hsend := Channel.sendAll_of_open h.opened (changeUpdates .add vni a.destination a.nextHop
        a.key (applyUpdate .add vni a.destination a.nextHop a.key s.world).1)
      refine (congrArg Channel.queue hsend).trans ?_
      rw [Channel.queue_pushAll, h.drained, List.nil_append, updates_add]
      by_cases hmem : a.key ∈ s.world.mb.routeTable.sources (a.route vni)
      · rw [if_pos hmem, if_neg (by simp [News, hmem])]
      · rw [if_neg hmem, if_pos ⟨hacc, hmem⟩]
    · have hsend := Channel.sendAll_of_open h.opened (changeUpdates .add vni a.destination a.nextHop
        a.key (applyUpdate .add vni a.destination a.nextHop a.key s.world).1)
      exact (congrArg Channel.closed hsend).trans ((Channel.closed_pushAll ..).trans h.opened)

theorem received_of_drains (h : Steady p s) {s₁ s₂ : Node} (hstored : Stored vni a s s₁)
    (hdrain : Drains s₁ s₂) : p.received s₂ = p.received s ++ sentFor p vni a s := by
  obtain ⟨t, hworld, -⟩ := hstored.world
  have hcell : p.cellOf s₁ = p.cellOf s := by
    rw [cellOf, hworld]
    rfl
  have hqueue := hstored.queue
  by_cases hnews : News vni a s
  · rw [if_pos hnews] at hqueue
    obtain ⟨ord, c, rfl⟩ := hdrain.eq_of_single hqueue
    have hlinked : p.Linked ({ s₁ with chan := c } : Node) := by
      rw [hworld]
      exact ⟨h.known, h.unique⟩
    have hdist := cellOf_distributed (a.toUpdate vni) hlinked ord
    have hdelivers : p.remoteAddr ∈ valueAt s₁.world.mb.subscribers (a.toUpdate vni).vni ∧
        ¬ Withheld (a.toUpdate vni) p ({ s₁ with chan := c } : Node) ↔ Delivers p vni a s := by
      refine and_congr (by rw [hworld]; rfl) (not_congr (withheld_congr _ _ ?_ ?_ ?_))
      · rw [hworld]; rfl
      · rw [hworld]; rfl
      · rw [hworld]; exact fun _ ↦ rfl
    by_cases hdel : Delivers p vni a s
    · rw [if_pos (hdelivers.mpr hdel)] at hdist
      have hsent : p.cellOf (distributed (a.toUpdate vni) { s₁ with chan := c } ord) =
          p.cellOf (p.sent s (a.toUpdate vni).message) := by
        rw [hdist, sent, cellOf_withCell]
        exact congrArg (fun cell ↦ (PeerCell.trySend cell _).2) hcell
      have hchange : (a.toUpdate vni).message.change? = some (.add (a.route vni)) :=
        change?_updateMessage ..
      rw [received_eq hsent, (h.hasRoom.trySend _).2, hchange, sentFor, if_pos ⟨hnews, hdel⟩]
      rfl
    · rw [if_neg (hdel ∘ hdelivers.mp)] at hdist
      rw [received_eq (hdist.trans hcell), sentFor, if_neg (by simp [hdel]), List.append_nil]
  · rw [if_neg hnews] at hqueue
    rw [hdrain.eq_of_nil hqueue, received_eq hcell, sentFor, if_neg (by simp [hnews]),
      List.append_nil]

theorem kept_learn (h : Steady p s) {s₁ s₂ s₃ : Node} {r : Except Error Unit}
    (hexec : exec [] (a.source.processUpdate (a.message vni)) s = .done r [] s₁)
    (hdrain : Drains s₁ s₂) (htransmit : Transmits p s₂ s₃) :
    Kept p (sentFor p vni a s) s s₃ ∧ ∀ r, s₃.world.mb.routeTable.sources r =
      if Accepted vni a s ∧ r = a.route vni then insert a.key (s.world.mb.routeTable.sources r)
      else s.world.mb.routeTable.sources r := by
  have hstored := stored_of_exec h hexec
  have hreceived := received_of_drains h hstored hdrain
  have hdrained := hdrain.drained
  obtain ⟨halike, hsame, hchan, hqueue⟩ := htransmit.effect
  obtain ⟨t, hworld, hsources⟩ := hstored.world
  have hmb : s₃.world.mb = { s.world.mb with routeTable := t } := by
    rw [halike.mb, hdrained.mb, hworld]
    rfl
  refine ⟨⟨⟨⟨?_, ?_⟩, ?_, hqueue, ?_, ?_⟩, ?_, ?_, ?_, ?_, fun id ↦ ?_, ?_⟩, fun r ↦ ?_⟩
  · rw [hmb]; exact h.known
  · rw [hmb]; exact h.unique
  · have hclosed := (halike.closed p.id).trans (hdrained.closed p.id)
    rw [hworld] at hclosed
    exact hclosed.trans h.connected
  · rw [hchan, hdrained.queue]
  · rw [hchan, hdrained.opened, hstored.opened]
  · rw [hmb]
  · rw [hmb]
  · rw [hmb]
  · rw [hmb]
  · rw [(halike.link id).1, (hdrained.link id).1, hworld]
    rfl
  · rw [hsame, hreceived]
  · rw [hmb]
    exact hsources r

def delivered (p : Peer) (vni : Vni) (as : List Announcement) (s : Node) : Set Route :=
  {r | ∃ a ∈ as, a.route vni = r ∧ News vni a s ∧ Delivers p vni a s}

theorem Kept.delivers_iff {sent : List (Change Route)} (h : Kept p sent s s') (b : Announcement) :
    Delivers p vni b s' ↔ Delivers p vni b s := by
  rw [Delivers, Delivers, h.subscribers, withheld_congr _ _ h.server h.peers h.flags]

theorem Kept.accepted_iff {sent : List (Change Route)} (h : Kept p sent s s') (b : Announcement) :
    Accepted vni b s' ↔ Accepted vni b s := by
  rw [Accepted, Accepted, Ignores, Ignores, h.subscriptions]

theorem delivers_congr {b : Announcement} (hkey : b.key = a.key) (hroute : b.route vni = a.route vni) :
    Delivers p vni b s ↔ Delivers p vni a s := by
  have hupdate : b.toUpdate vni = a.toUpdate vni := by
    obtain ⟨-, hdest, hnh⟩ : vni = vni ∧ b.destination = a.destination ∧ b.nextHop = a.nextHop := by
      simpa [Announcement.route] using hroute
    simp only [Announcement.toUpdate, hkey, hdest, hnh]
  rw [Delivers, Delivers, hupdate]

theorem mem_sentFor {r : Route} : .add r ∈ sentFor p vni a s ↔
    a.route vni = r ∧ News vni a s ∧ Delivers p vni a s := by
  unfold sentFor
  by_cases hnews : News vni a s ∧ Delivers p vni a s
  · simp only [hnews, and_self, if_true, List.mem_singleton, Change.add.injEq, and_true]
    exact eq_comm
  · simp only [hnews, if_false, List.not_mem_nil, and_false]

theorem delivered_cons (hkept : Kept p (sentFor p vni a s) s s')
    (hmem : ∀ r k, k ∈ s'.world.mb.routeTable.sources r ↔ k ∈ s.world.mb.routeTable.sources r ∨
      a.route vni = r ∧ a.key = k ∧ Accepted vni a s) (r : Route) :
    .add r ∈ sentFor p vni a s ∨ r ∈ delivered p vni as s' ↔ r ∈ delivered p vni (a :: as) s := by
  have hnews : ∀ b, News vni b s' ↔ News vni b s ∧
      ¬(a.route vni = b.route vni ∧ a.key = b.key ∧ Accepted vni a s) := by
    intro b
    rw [News, hkept.accepted_iff, hmem, News, not_or, and_assoc]
  rw [mem_sentFor]
  constructor
  · intro hex
    rcases hex with ⟨hr, hfirst⟩ | ⟨b, hb, hr, hn, hd⟩
    · exact ⟨a, List.mem_cons_self, hr, hfirst⟩
    · exact ⟨b, List.mem_cons_of_mem a hb, hr, ((hnews b).mp hn).1, (hkept.delivers_iff b).mp hd⟩
  · intro hex
    obtain ⟨b, hb, hr, hn, hd⟩ := hex
    rcases List.mem_cons.mp hb with rfl | hb
    · exact Or.inl ⟨hr, hn, hd⟩
    · by_cases hrep : a.route vni = b.route vni ∧ a.key = b.key ∧ Accepted vni a s
      · obtain ⟨hroute, hkey, hacc⟩ := hrep
        have hfresh : a.key ∉ s.world.mb.routeTable.sources (a.route vni) := by
          rw [hroute, hkey]
          exact hn.2
        exact Or.inl ⟨hroute.trans hr, ⟨hacc, hfresh⟩,
          (delivers_congr hkey.symm hroute.symm).mp hd⟩
      · exact Or.inr ⟨b, hb, hr, (hnews b).mpr ⟨hn, hrep⟩, (hkept.delivers_iff b).mpr hd⟩

structure LearnedAll (p : Peer) (vni : Vni) (as : List Announcement) (s s' : Node) : Prop where
  kept : ∃ sent, Kept p sent s s' ∧ ∀ r, .add r ∈ sent ↔ r ∈ delivered p vni as s
  sources : ∀ r k, k ∈ s'.world.mb.routeTable.sources r ↔ k ∈ s.world.mb.routeTable.sources r ∨
    ∃ a ∈ as, a.route vni = r ∧ a.key = k ∧ Accepted vni a s

theorem learnedAll (h : Steady p s) (hlearn : Learns p vni s as s') : LearnedAll p vni as s s' := by
  induction hlearn with
  | nil s => exact ⟨⟨[], .refl h, by simp [delivered]⟩, by simp⟩
  | @cons s s₁ s₂ s₃ s₄ a as r hexec hdrain htransmit _ ih =>
    obtain ⟨hkept, hsources⟩ := kept_learn h hexec hdrain htransmit
    obtain ⟨⟨sent, hrest, hsent⟩, hall⟩ := ih hkept.steady
    have hmem : ∀ r k, k ∈ s₃.world.mb.routeTable.sources r ↔
        k ∈ s.world.mb.routeTable.sources r ∨ a.route vni = r ∧ a.key = k ∧ Accepted vni a s := by
      intro r k
      rw [hsources]
      split
      · next hr =>
        rw [Finset.mem_insert, or_comm, eq_comm]
        exact or_congr_right ⟨fun hk ↦ ⟨hr.2.symm, hk, hr.1⟩, fun h ↦ h.2.1⟩
      · next hr => exact (or_iff_left fun h ↦ hr ⟨h.2.2, h.1.symm⟩).symm
    refine ⟨⟨_, hkept.trans hrest, fun r ↦ ?_⟩, fun r k ↦ ?_⟩
    · rw [List.mem_append, hsent]
      exact delivered_cons hkept hmem r
    · rw [hall, hmem]
      simp only [hkept.accepted_iff, List.exists_mem_cons_iff]
      exact or_assoc

def announcers (vni : Vni) (as : List Announcement) (s : Node) (r : Route) : List Announcement :=
  as.filter fun a ↦ decide (Accepted vni a s ∧ a.route vni = r)

theorem mem_announcers {r : Route} :
    a ∈ announcers vni as s r ↔ a ∈ as ∧ Accepted vni a s ∧ a.route vni = r := by
  simp [announcers]

/-- The distributor lets some announcement of the route through. -/
def Forwarded (p : Peer) (vni : Vni) (as : List Announcement) (s : Node) (r : Route) : Prop :=
  ∃ a ∈ announcers vni as s r, ¬ Withheld (a.toUpdate vni) p s

def Listed (p : Peer) (vni : Vni) (as : List Announcement) (s : Node) (r : Route) : Prop :=
  announcers vni as s r ≠ [] ∧
    ¬(r.2.2.hopType = .nat ∧ ∃ a ∈ announcers vni as s r, a.key = some p.remoteAddr)

instance (r : Route) : Decidable (Listed p vni as s r) := inferInstanceAs (Decidable (_ ∧ _))

def listedRoutes (p : Peer) (vni : Vni) (as : List Announcement) (s : Node) : Finset Route :=
  (as.map (·.route vni)).toFinset.filter (Listed p vni as s)

theorem mem_listedRoutes {r : Route} : r ∈ listedRoutes p vni as s ↔ Listed p vni as s r := by
  refine Finset.mem_filter.trans (and_iff_right_of_imp fun h ↦ ?_)
  obtain ⟨a, ha⟩ := List.exists_mem_of_ne_nil _ h.1
  obtain ⟨hmem, -, hr⟩ := mem_announcers.mp ha
  exact List.mem_toFinset.mpr (List.mem_map.mpr ⟨a, hmem, hr⟩)

theorem added_eq {sent : List (Change Route)} (h : p.received s' = p.received s ++ sent) :
    added p s s' = {r | .add r ∈ sent} := by
  rw [added, h, List.drop_left]

theorem received_subscribed (vni : Vni) (s : Node) :
    p.received (p.subscribed vni s) = p.received s := by
  rw [received, cellOf_subscribed]
  rfl

theorem subscribes_iff (h : p.remoteAddr ∉ valueAt s.world.mb.subscribers vni) :
    Subscribes p vni s s' ↔ ∃ ord, s' = p.withCell (p.subscribed vni s)
      ((p.cellOf (p.subscribed vni s)).sendRoutes (p.snapshotFor ord vni s)).2 := by
  constructor
  · intro hex
    obtain ⟨ord, r, hexec⟩ := hex
    rw [exec_processSubscribe, if_neg h] at hexec
    cases hexec
    exact ⟨ord, rfl⟩
  · intro hex
    obtain ⟨ord, rfl⟩ := hex
    refine ⟨ord, ((p.cellOf (p.subscribed vni s)).sendRoutes (p.snapshotFor ord vni s)).1, ?_⟩
    rw [exec_processSubscribe, if_neg h]

theorem received_snapshot (h : Steady p s) (ord : HashOrder) :
    p.received (p.withCell (p.subscribed vni s)
        ((p.cellOf (p.subscribed vni s)).sendRoutes (p.snapshotFor ord vni s)).2) =
      p.received s ++ ((p.snapshotFor ord vni s).take peerTxBufferSize).map .add := by
  have hchange : ∀ r : Route, (updateMessage .add r.1 r.2.1 r.2.2).change? = some (.add r) :=
    fun _ ↦ change?_updateMessage ..
  have hhistory := PeerCell.history_sendRoutes (c := p.cellOf (p.subscribed vni s))
    (p.snapshotFor ord vni s) (by simpa using h.connected)
  have hqueue : (p.cellOf (p.subscribed vni s)).tx.queue = [] := by simpa using h.sent
  rw [hqueue, List.length_nil, Nat.sub_zero] at hhistory
  rw [received, cellOf_withCell, hhistory, List.filterMap_append, ← received,
    received_subscribed, List.filterMap_map]
  congr 1
  rw [← List.filterMap_eq_map]
  exact List.filterMap_congr fun r _ ↦ hchange r

theorem Start.eq_subscribed (h : Start p vni s) (hsub : Subscribes p vni s s') :
    s' = p.subscribed vni s := by
  obtain ⟨ord, rfl⟩ := (subscribes_iff h.unsubscribed).mp hsub
  have hsnapshot : p.snapshotFor ord vni s = [] := by
    refine List.eq_nil_iff_forall_not_mem.mpr fun r hr ↦ ?_
    obtain ⟨hvni, hhas, -⟩ := (mem_snapshotFor ord p s).mp hr
    exact hhas (h.unlearned r hvni)
  rw [hsnapshot]
  exact p.withCell_cellOf _

theorem Start.steady_subscribed (h : Start p vni s) : Steady p (p.subscribed vni s) where
  known := h.known
  unique := h.unique
  connected := by simpa using h.connected
  sent := by simpa using h.sent
  drained := h.drained
  opened := h.opened

theorem flags_subscribed (id : PeerId) :
    ((p.subscribed vni s).world.cell id).isRemoteServer = (s.world.cell id).isRemoteServer := by
  by_cases hid : id = p.id
  · subst hid
    have hcell := congrArg PeerCell.isRemoteServer (cellOf_subscribed p s vni)
    exact hcell
  · have hcell := World.modifyCell_cell_of_ne (addSubscriber p.remoteAddr vni s.world).2 hid
      fun c ↦ { c with subscribedVnisRemote := insert vni c.subscribedVnisRemote }
    exact congrArg PeerCell.isRemoteServer hcell

theorem Start.delivered_subscribed (h : Start p vni s) :
    delivered p vni as (p.subscribed vni s) = {r | Forwarded p vni as s r} := by
  have hmem : p.remoteAddr ∈ valueAt (p.subscribed vni s).world.mb.subscribers vni := by
    simp [subscribed, addSubscriber, valueAt_insert]
  have hwith : ∀ a : Announcement, Withheld (a.toUpdate vni) p (p.subscribed vni s) ↔
      Withheld (a.toUpdate vni) p s := fun a ↦ withheld_congr _ _ rfl rfl flags_subscribed
  ext r
  simp only [delivered, Forwarded, Set.mem_ofPred_eq, mem_announcers, Delivers, hwith]
  constructor
  · intro hex
    obtain ⟨a, ha, hr, hnews, -, hdel⟩ := hex
    exact ⟨a, ⟨ha, hnews.1, hr⟩, hdel⟩
  · intro hex
    obtain ⟨a, ⟨ha, hacc, hr⟩, hdel⟩ := hex
    refine ⟨a, ha, hr, ⟨hacc, ?_⟩, hmem, hdel⟩
    rw [routeTable_subscribed, h.unlearned _ rfl]
    exact Finset.notMem_empty _

theorem added_before (h : Start p vni s) {s₁ s₂ : Node} (hsub : Subscribes p vni s s₁)
    (hlearn : Learns p vni s₁ as s₂) : added p s s₂ = {r | Forwarded p vni as s r} := by
  rw [h.eq_subscribed hsub] at hlearn
  obtain ⟨sent, hkept, hsent⟩ := (learnedAll h.steady_subscribed hlearn).kept
  have hreceived := hkept.received
  rw [received_subscribed] at hreceived
  rw [added_eq hreceived, ← h.delivered_subscribed]
  exact Set.ext hsent

theorem mem_snapshot_after (h : Start p vni s) {t₁ : Node} (hlearn : Learns p vni s as t₁)
    (ord : HashOrder) (r : Route) : r ∈ p.snapshotFor ord vni t₁ ↔ Listed p vni as s r := by
  have hsources := (learnedAll h.toSteady hlearn).sources
  have hmem : r.1 = vni → ∀ k, k ∈ t₁.world.mb.routeTable.sources r ↔
      ∃ a ∈ announcers vni as s r, a.key = k := by
    intro hvni k
    rw [hsources, h.unlearned r hvni]
    simp only [Finset.notMem_empty, false_or, mem_announcers]
    exact exists_congr fun a ↦ by tauto
  have hvni : ∀ {a}, a ∈ announcers vni as s r → r.1 = vni := fun ha ↦
    (congrArg Prod.fst (mem_announcers.mp ha).2.2).symm
  have hhas : r.1 = vni → (t₁.world.mb.routeTable.Has r ↔ announcers vni as s r ≠ []) := by
    intro hr
    rw [RouteTable.Has, ← Finset.nonempty_iff_ne_empty]
    constructor
    · intro hex
      obtain ⟨k, hk⟩ := hex
      obtain ⟨a, ha, -⟩ := (hmem hr k).mp hk
      exact List.ne_nil_of_mem ha
    · intro hne
      obtain ⟨a, ha⟩ := List.exists_mem_of_ne_nil _ hne
      exact ⟨a.key, (hmem hr _).mpr ⟨a, ha, rfl⟩⟩
  rw [mem_snapshotFor]
  constructor
  · intro hex
    obtain ⟨hr, hroute, hex⟩ := hex
    exact ⟨(hhas hr).mp hroute, fun hown ↦ hex ⟨hown.1, (hmem hr _).mpr hown.2⟩⟩
  · intro hex
    obtain ⟨hne, hown⟩ := hex
    obtain ⟨a, ha⟩ := List.exists_mem_of_ne_nil _ hne
    have hr := hvni ha
    exact ⟨hr, (hhas hr).mpr hne, fun hex ↦ hown ⟨hex.1, (hmem hr _).mp hex.2⟩⟩

theorem Start.delivered_eq (h : Start p vni s) : delivered p vni as s = ∅ := by
  refine Set.eq_empty_of_forall_notMem fun r hr ↦ ?_
  obtain ⟨a, -, -, -, hdel⟩ := hr
  exact h.unsubscribed hdel.1

theorem added_after (h : Start p vni s) {t₁ : Node} (hlearn : Learns p vni s as t₁)
    (ord : HashOrder) : added p s (p.withCell (p.subscribed vni t₁)
        ((p.cellOf (p.subscribed vni t₁)).sendRoutes (p.snapshotFor ord vni t₁)).2) =
      {r | r ∈ (p.snapshotFor ord vni t₁).take peerTxBufferSize} := by
  obtain ⟨sent, hkept, hsent⟩ := (learnedAll h.toSteady hlearn).kept
  have hreceived : p.received (p.withCell (p.subscribed vni t₁) _) =
      p.received t₁ ++ ((p.snapshotFor ord vni t₁).take peerTxBufferSize).map .add :=
    received_snapshot hkept.steady ord
  rw [hkept.received, List.append_assoc] at hreceived
  rw [added_eq hreceived]
  ext r
  have hnone : Change.add r ∉ sent := by
    rw [hsent, h.delivered_eq]
    exact Set.notMem_empty r
  simp only [Set.mem_ofPred_eq, List.mem_append, hnone, false_or, List.mem_map,
    Change.add.injEq, exists_eq_right]

/-- A server is not sent what only servers announce; a NAT route goes back to a peer that
announced it through the other announcers only. -/
def OneRule (p : Peer) (vni : Vni) (as : List Announcement) (s : Node) (r : Route) : Prop :=
  if r.2.2.hopType = .nat ∧ ∃ a ∈ announcers vni as s r, a.key = some p.remoteAddr then
    ∀ a ∈ announcers vni as s r, a.key ≠ some p.remoteAddr →
      fromServer a.key s = true ∧ (p.cellOf s).isRemoteServer = true
  else announcers vni as s r ≠ [] → ∃ a ∈ announcers vni as s r,
    ¬(fromServer a.key s = true ∧ (p.cellOf s).isRemoteServer = true)

theorem withheld_iff {r : Route} (ha : a ∈ announcers vni as s r) :
    Withheld (a.toUpdate vni) p s ↔ (a.key = some p.remoteAddr ∧ r.2.2.hopType = .nat) ∨
      (fromServer a.key s = true ∧ (p.cellOf s).isRemoteServer = true) := by
  obtain ⟨-, -, rfl⟩ := mem_announcers.mp ha
  exact or_congr_left (and_congr_left' eq_comm)

theorem oneRule_iff {r : Route} :
    OneRule p vni as s r ↔ (Forwarded p vni as s r ↔ Listed p vni as s r) := by
  have hforwarded : Forwarded p vni as s r ↔ ∃ a ∈ announcers vni as s r,
      ¬(a.key = some p.remoteAddr ∧ r.2.2.hopType = .nat) ∧
      ¬(fromServer a.key s = true ∧ (p.cellOf s).isRemoteServer = true) :=
    exists_congr fun a ↦ and_congr_right fun ha ↦ by rw [withheld_iff ha, not_or]
  unfold OneRule
  split
  · next hown =>
    have hlisted : ¬ Listed p vni as s r := fun h ↦ h.2 hown
    rw [iff_false_right hlisted, hforwarded]
    push Not
    exact forall₂_congr fun a _ ↦
      ⟨fun h hkey ↦ h fun heq ↦ hkey heq hown.1, fun h hkey ↦ h fun heq ↦ absurd heq hkey⟩
  · next hown =>
    have hlisted : Listed p vni as s r ↔ announcers vni as s r ≠ [] := and_iff_left hown
    rw [hlisted, hforwarded]
    constructor
    · intro h
      refine ⟨fun ⟨a, ha, _⟩ ↦ List.ne_nil_of_mem ha, fun hne ↦ ?_⟩
      obtain ⟨a, ha, hserver⟩ := h hne
      exact ⟨a, ha, fun heq ↦ hown ⟨heq.2, a, ha, heq.1⟩, hserver⟩
    · intro h hne
      obtain ⟨a, ha, -, hserver⟩ := h.mpr hne
      exact ⟨a, ha, hserver⟩

theorem exists_transmits (p : Peer) (s : Node) : ∃ s', Transmits p s s' := by
  generalize hlen : (p.cellOf s).tx.queue.length = n
  induction n generalizing s with
  | zero => exact ⟨s, .done (List.length_eq_zero_iff.mp hlen)⟩
  | succ n ih =>
    cases hqueue : (p.cellOf s).tx.queue with
    | nil => simp [hqueue] at hlen
    | cons msg rest =>
      obtain ⟨tx, hrecv, htx⟩ := Mailbox.recv_of_cons hqueue
      have hcell : (p.cellOf { s with world := p.takeOutgoing s.world }).tx = tx := by
        have hrecv' : (s.world.cell p.id).tx.recv = some (msg, tx) := hrecv
        simp only [cellOf, takeOutgoing, hrecv', World.modifyCell_cell]
      obtain ⟨s', hrest⟩ := ih { s with world := p.takeOutgoing s.world } (by
        rw [hcell, htx]
        rw [hqueue, List.length_cons] at hlen
        exact Nat.succ.inj hlen)
      exact ⟨s', .next (by simp [hqueue]) hrest⟩

theorem exists_learns (p : Peer) (vni : Vni) (s : Node) (as : List Announcement) :
    ∃ s', Learns p vni s as s' := by
  induction as generalizing s with
  | nil => exact ⟨s, .nil s⟩
  | cons a as ih =>
    obtain ⟨r, s₁, hexec⟩ := ends_processUpdate a.source (a.message vni) s
    obtain ⟨s₂, hdrain⟩ := exists_drains .toList s₁
    obtain ⟨s₃, htransmit⟩ := exists_transmits p s₂
    obtain ⟨s', hrest⟩ := ih s₃
    exact ⟨s', .cons hexec hdrain htransmit hrest⟩

theorem routeList_reverse (ord : HashOrder) (destMap : DestinationMap) :
    routeList ord.reverse destMap = (routeList ord destMap).reverse := by
  rw [routeList, routeList, List.reverse_flatMap]
  refine List.flatMap_congr fun dest _ ↦ ?_
  exact List.map_reverse

theorem snapshotFor_reverse (ord : HashOrder) :
    p.snapshotFor ord.reverse vni s = (p.snapshotFor ord vni s).reverse := by
  rw [snapshotFor, routeList_reverse, wanted, List.filter_reverse, List.map_reverse]
  rfl

theorem length_snapshot (h : Start p vni s) {t₁ : Node} (hlearn : Learns p vni s as t₁)
    (ord : HashOrder) : (p.snapshotFor ord vni t₁).length = (listedRoutes p vni as s).card := by
  have hset : (p.snapshotFor ord vni t₁).toFinset = listedRoutes p vni as s := by
    ext r
    rw [List.mem_toFinset, mem_listedRoutes, mem_snapshot_after h hlearn]
  rw [← hset, List.toFinset_card_of_nodup (nodup_snapshotFor ord p t₁ vni)]

theorem sameEitherWay_of_fits (h : Start p vni s)
    (hfits : (listedRoutes p vni as s).card ≤ peerTxBufferSize)
    (hrule : ∀ r, OneRule p vni as s r) : SameEitherWay p vni as s := by
  intro s₁ s₂ t₁ t₂ hsub hlearn hlearn' hsub'
  have hunsub : p.remoteAddr ∉ valueAt t₁.world.mb.subscribers vni := by
    obtain ⟨sent, hkept, -⟩ := (learnedAll h.toSteady hlearn').kept
    rw [hkept.subscribers]
    exact h.unsubscribed
  obtain ⟨ord, rfl⟩ := (subscribes_iff hunsub).mp hsub'
  rw [added_before h hsub hlearn, added_after h hlearn']
  ext r
  rw [Set.mem_ofPred_eq, Set.mem_ofPred_eq,
    List.take_of_length_le (by rw [length_snapshot h hlearn' ord]; exact hfits),
    mem_snapshot_after h hlearn']
  exact oneRule_iff.mp (hrule r)

theorem fits_of_sameEitherWay (h : Start p vni s) (hsame : SameEitherWay p vni as s) :
    (listedRoutes p vni as s).card ≤ peerTxBufferSize ∧ ∀ r, OneRule p vni as s r := by
  obtain ⟨s₁, hsub⟩ : ∃ s₁, Subscribes p vni s s₁ :=
    ⟨_, (subscribes_iff h.unsubscribed).mpr ⟨.toList, rfl⟩⟩
  obtain ⟨s₂, hlearn⟩ := exists_learns p vni s₁ as
  obtain ⟨t₁, hlearn'⟩ := exists_learns p vni s as
  have hunsub : p.remoteAddr ∉ valueAt t₁.world.mb.subscribers vni := by
    obtain ⟨sent, hkept, -⟩ := (learnedAll h.toSteady hlearn').kept
    rw [hkept.subscribers]
    exact h.unsubscribed
  have hsent : ∀ ord : HashOrder, ∀ r, Forwarded p vni as s r ↔
      r ∈ (p.snapshotFor ord vni t₁).take peerTxBufferSize := by
    intro ord r
    have hadded := hsame s₁ s₂ t₁ _ hsub hlearn hlearn' ((subscribes_iff hunsub).mpr ⟨ord, rfl⟩)
    rw [added_before h hsub hlearn, added_after h hlearn'] at hadded
    exact Set.ext_iff.mp hadded r
  have hfits : (listedRoutes p vni as s).card ≤ peerTxBufferSize := by
    -- Otherwise it depends on the order of iteration which routes find a slot.
    by_contra hcrowded
    rw [← length_snapshot h hlearn' .toList, not_le] at hcrowded
    obtain ⟨r, hr, hnot⟩ := exists_mem_take_reverse (nodup_snapshotFor .toList p t₁ vni)
      (by decide) hcrowded
    rw [← snapshotFor_reverse, ← hsent] at hr
    exact hnot ((hsent .toList r).mp hr)
  refine ⟨hfits, fun r ↦ oneRule_iff.mpr ?_⟩
  rw [hsent .toList, List.take_of_length_le (by rw [length_snapshot h hlearn' .toList]; exact hfits),
    mem_snapshot_after h hlearn']

/-- A peer is sent the same routes, whenever it subscribes, exactly when loop prevention
does not tell the two ways apart and the snapshot fits into its queue. -/
theorem sameEitherWay_iff (h : Start p vni s) : SameEitherWay p vni as s ↔
    (listedRoutes p vni as s).card ≤ peerTxBufferSize ∧ ∀ r, OneRule p vni as s r :=
  ⟨fits_of_sameEitherWay h, fun hfits ↦ sameEitherWay_of_fits h hfits.1 hfits.2⟩

def sharingNode : Node :=
  let s := Sample.node true
  { s with world := s.world.modifyMb fun mb ↦ { mb with
      peers := (mb.peers.insert (Sample.addr 2) (Sample.peer 2 .incoming)).insert (Sample.addr 1)
        (Sample.peer 1 .incoming) } }

theorem start_sharingNode : Start (Sample.peer 1 .incoming) 100 sharingNode where
  known := Finmap.lookup_insert _
  unique addr q h hid := by
    by_contra haddr
    have hlookup := (Finmap.lookup_insert_of_ne _ haddr).symm.trans h
    by_cases haddr' : addr = Sample.addr 2
    · subst haddr'
      rw [Finmap.lookup_insert] at hlookup
      cases hlookup
      exact absurd hid (by decide)
    · rw [Finmap.lookup_insert_of_ne _ haddr'] at hlookup
      cases hlookup
  connected := rfl
  sent := rfl
  drained := rfl
  opened := rfl
  unsubscribed := by decide
  unlearned r _ := RouteTable.sources_new r

theorem sameEitherWay_iff_sample :
    let p := Sample.peer 1 .incoming
    let as : List Announcement := [⟨Sample.peer 2 .incoming, Sample.destination, Sample.nextHop⟩]
    SameEitherWay p 100 as sharingNode ↔
      (listedRoutes p 100 as sharingNode).card ≤ peerTxBufferSize ∧
        ∀ r, OneRule p 100 as sharingNode r :=
  sameEitherWay_iff start_sharingNode

def natHop : NextHop := { Sample.nextHop with hopType := .nat }

/-- Both clients announce a NAT route. The distributor sends the one of the other client to
the subscriber, the snapshot leaves it out. -/
theorem shared_nat_route_differs :
    let p := Sample.peer 1 .incoming
    let as : List Announcement := [⟨p, Sample.destination, natHop⟩,
      ⟨Sample.peer 2 .incoming, Sample.destination, natHop⟩]
    Start p 100 sharingNode ∧ ¬ SameEitherWay p 100 as sharingNode := by
  intro p as
  refine ⟨start_sharingNode, fun hsame ↦ ?_⟩
  have hmem : ∀ a ∈ as, a ∈ announcers 100 as sharingNode (100, Sample.destination, natHop) := by
    intro a ha
    refine mem_announcers.mpr ⟨ha, ?_⟩
    rcases List.mem_pair.mp ha with rfl | rfl
    · exact ⟨fun hig ↦ absurd hig.2 (by decide), rfl⟩
    · exact ⟨fun hig ↦ absurd hig.2 (by decide), rfl⟩
  have hrule := (fits_of_sameEitherWay start_sharingNode hsame).2 (100, Sample.destination, natHop)
  rw [OneRule, if_pos ⟨rfl, _, hmem _ List.mem_cons_self, rfl⟩] at hrule
  have hserver := hrule _ (hmem _ (List.mem_cons_of_mem _ List.mem_cons_self)) (by decide)
  exact absurd hserver.2 (by decide)

end MetalBond.SubscribeOrder
