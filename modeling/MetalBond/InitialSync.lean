import MetalBond.HandlerExec

namespace MetalBond.InitialSync

open Async Task Collections HashMap Peer

structure Healthy (c : PeerCell) : Prop where
  queue : c.tx.queue = []
  connected : c.tx.closed = false
  running : c.shutdownSignal = false

def OneEach {α : Type} [DecidableEq α] (msg : α → GeneratedMessage) (as : Finset α)
    (sent : List GeneratedMessage) : Prop :=
  ∃ l : List α, l.Nodup ∧ l.toFinset = as ∧ sent.Perm (l.map msg)

theorem OneEach.length_eq {α : Type} [DecidableEq α] {msg : α → GeneratedMessage} {as : Finset α}
    {sent : List GeneratedMessage} (h : OneEach msg as sent) : sent.length = as.card := by
  obtain ⟨l, hnd, rfl, hperm⟩ := h
  rw [hperm.length_eq, List.length_map, List.toFinset_card_of_nodup hnd]

def subscribeTo (vni : Vni) : GeneratedMessage := .subscribe ⟨vni⟩

def announce (r : Route) : GeneratedMessage := updateMessage .add r.1 r.2.1 r.2.2

variable (ord : HashOrder) (self : Peer) (s : Node)

def localRoutes (t : RouteTable) : Finset Route := t.allRoutes.filter fun r ↦ none ∈ t.sources r

def routesFor (vni : Vni) (t : RouteTable) : Finset Route :=
  t.allRoutes.filter fun r ↦ r.1 = vni ∧ ¬ self.Exempt (r.2.1, r.2.2, t.sources r)

/-- Entering `Established` queues the subscriptions and the announcements of this node. -/
def SyncsAll (o : Outcome Lock World InternalUpdate Unit) : Prop :=
  ∃ subs anns, OneEach subscribeTo s.world.mb.mySubscriptions subs ∧
    OneEach announce (localRoutes s.world.mb.myAnnouncements) anns ∧
    (self.cellOf o.shared).tx.queue = subs ++ anns ∧
    (self.cellOf o.shared).shutdownSignal = false ∧
    ∃ s', o = .done () [] s'

/-- A subscription is answered with the routes of its VNI. -/
def AnswersAll (vni : Vni) (o : Outcome Lock World InternalUpdate (Except Error Unit)) : Prop :=
  ∃ adds, OneEach announce (routesFor self vni s.world.mb.routeTable) adds ∧
    (self.cellOf o.shared).tx.queue = adds ∧ ∃ s', o = .done (.ok ()) [] s'

theorem toFinset_announcementList (t : RouteTable) :
    (announcementList ord t.getLocalAnnouncements).toFinset = localRoutes t := by
  ext r
  simp only [List.mem_toFinset, mem_announcementList, localRoutes, Finset.mem_filter,
    RouteTable.mem_allRoutes]
  exact (and_iff_right_of_imp RouteTable.has_of_mem).symm

theorem toFinset_snapshotFor (vni : Vni) :
    (self.snapshotFor ord vni s).toFinset = routesFor self vni s.world.mb.routeTable := by
  ext r
  simp only [List.mem_toFinset, mem_snapshotFor, routesFor, Finset.mem_filter,
    RouteTable.mem_allRoutes, and_left_comm]

theorem oneEach_map {α : Type} [DecidableEq α] (msg : α → GeneratedMessage) {l : List α}
    {as : Finset α} (hnd : l.Nodup) (h : l.toFinset = as) : OneEach msg as (l.map msg) :=
  ⟨l, hnd, h, .refl _⟩

theorem length_eq_card {α : Type} [DecidableEq α] {l : List α} {as : Finset α} (hnd : l.Nodup)
    (h : l.toFinset = as) : l.length = as.card := by
  rw [← h, List.toFinset_card_of_nodup hnd]

def syncSize (mb : MetalBondState) : ℕ :=
  mb.mySubscriptions.card + (localRoutes mb.myAnnouncements).card

variable {s}

theorem synced_of_room {c : PeerCell} (hopen : c.tx.closed = false)
    (hroom : c.tx.queue.length + syncSize s.world.mb ≤ peerTxBufferSize) :
    ∃ tx, synced ord s c = { c with tx := tx } ∧
      tx.toChannel = (c.tx.pushAll ((ord.list s.world.mb.mySubscriptions).map subscribeTo)).pushAll
        ((announcementList ord s.world.mb.myAnnouncements.getLocalAnnouncements).map announce) := by
  have hanns := length_eq_card (nodup_announcementList ord _)
    (toFinset_announcementList ord s.world.mb.myAnnouncements)
  rw [syncSize, ← ord.length_list, ← hanns] at hroom
  obtain ⟨tx, hsubs, htx⟩ :=
    PeerCell.initialSubscribes_of_room (ord.list s.world.mb.mySubscriptions) hopen (by omega)
  have hopen' : tx.closed = false := by rw [htx, Channel.closed_pushAll, hopen]
  obtain ⟨tx', hroutes, htx'⟩ := PeerCell.sendRoutes_of_room (c := { c with tx := tx })
    (announcementList ord s.world.mb.myAnnouncements.getLocalAnnouncements) hopen' (by
      simp only [htx, Channel.queue_pushAll, List.length_append, List.length_map]
      omega)
  refine ⟨tx', ?_, ?_⟩
  · simp only [synced, hsubs, hroutes]
  · rw [htx', htx]
    rfl

theorem syncsAll_of_size (h : Healthy (self.cellOf s))
    (hstate : (self.cellOf s).state ≠ .established)
    (hsize : syncSize s.world.mb ≤ peerTxBufferSize) :
    SyncsAll self s (exec [] (self.setState ord .established) s) := by
  obtain ⟨tx, hsynced, htx⟩ := @synced_of_room ord s
    { self.cellOf s with state := .established } h.connected (by rw [h.queue]; simpa using hsize)
  rw [exec_setState_enter ord self s hstate hstate, entered, if_pos rfl, hsynced]
  refine ⟨(ord.list s.world.mb.mySubscriptions).map subscribeTo,
    (announcementList ord s.world.mb.myAnnouncements.getLocalAnnouncements).map announce,
    oneEach_map _ (ord.nodup _) (ord.toFinset_list _),
    oneEach_map _ (nodup_announcementList ord _) (toFinset_announcementList ord _), ?_, ?_, _, rfl⟩
  · simp only [Outcome.shared_done, cellOf_withCell, htx, Channel.queue_pushAll, h.queue,
      List.nil_append]
  · simp only [Outcome.shared_done, cellOf_withCell, h.running]

theorem syncsAll_iff (h : Healthy (self.cellOf s)) :
    SyncsAll self s (exec [] (self.setState ord .established) s) ↔
      syncSize s.world.mb = 0 ∨
        (self.cellOf s).state ≠ .established ∧ syncSize s.world.mb ≤ peerTxBufferSize := by
  constructor
  · intro hex
    obtain ⟨subs, anns, hsubs, hanns, hqueue, -, -⟩ := hex
    have hlength : (self.cellOf (exec [] (self.setState ord .established) s).shared).tx.queue.length
        = syncSize s.world.mb := by
      rw [hqueue, List.length_append, hsubs.length_eq, hanns.length_eq, syncSize]
    by_cases hstate : (self.cellOf s).state = .established
    · have hself := exec_setState_self ord self s
      rw [hstate] at hself
      rw [hself, Outcome.shared_done, h.queue] at hlength
      exact Or.inl hlength.symm
    · exact Or.inr ⟨hstate, hlength ▸ Mailbox.bounded _⟩
  · intro hsize
    by_cases hstate : (self.cellOf s).state = .established
    · have hzero : syncSize s.world.mb = 0 := hsize.resolve_right fun hr ↦ hr.1 hstate
      have hself := exec_setState_self ord self s
      rw [hstate] at hself
      rw [syncSize, Nat.add_eq_zero_iff, Finset.card_eq_zero, Finset.card_eq_zero] at hzero
      rw [hself]
      exact ⟨[], [], ⟨[], .nil, hzero.1.symm, .nil⟩, ⟨[], .nil, hzero.2.symm, .nil⟩, h.queue,
        h.running, s, rfl⟩
    · exact syncsAll_of_size ord self h hstate (hsize.elim (fun h0 ↦ h0 ▸ Nat.zero_le _) And.right)

theorem answersAll_iff (vni : Vni) (h : Healthy (self.cellOf s)) :
    AnswersAll self s vni (exec [] (self.processSubscribe ord ⟨vni⟩) s) ↔
      (routesFor self vni s.world.mb.routeTable).card = 0 ∨
        self.remoteAddr ∉ valueAt s.world.mb.subscribers vni ∧
          (routesFor self vni s.world.mb.routeTable).card ≤ peerTxBufferSize := by
  have hsnap := length_eq_card (nodup_snapshotFor ord self s vni)
    (toFinset_snapshotFor ord self s vni)
  constructor
  · intro hex
    obtain ⟨adds, hadds, hqueue, -⟩ := hex
    have hlength := hadds.length_eq
    rw [← hqueue] at hlength
    by_cases hmem : self.remoteAddr ∈ valueAt s.world.mb.subscribers vni
    · rw [exec_processSubscribe, if_pos hmem, Outcome.shared_done, cellOf_subscribed, h.queue]
        at hlength
      exact Or.inl hlength.symm
    · exact Or.inr ⟨hmem, hlength ▸ Mailbox.bounded _⟩
  · intro hsize
    rw [exec_processSubscribe]
    by_cases hmem : self.remoteAddr ∈ valueAt s.world.mb.subscribers vni
    · have hzero := hsize.resolve_right fun hr ↦ hr.1 hmem
      rw [Finset.card_eq_zero] at hzero
      rw [if_pos hmem]
      exact ⟨[], ⟨[], .nil, hzero.symm, .nil⟩, by simpa using h.queue, _, rfl⟩
    · rw [if_neg hmem]
      have hroom : (routesFor self vni s.world.mb.routeTable).card ≤ peerTxBufferSize :=
        hsize.elim (fun h0 ↦ h0 ▸ Nat.zero_le _) And.right
      obtain ⟨tx, hsend, htx⟩ := PeerCell.sendRoutes_of_room
        (c := self.cellOf (self.subscribed vni s)) (self.snapshotFor ord vni s)
        (by simpa using h.connected) (by simp [h.queue]; omega)
      refine ⟨(self.snapshotFor ord vni s).map announce, oneEach_map _
        (nodup_snapshotFor ord self s vni) (toFinset_snapshotFor ord self s vni), ?_, ?_⟩
      · simp only [hsend, Outcome.shared_done, cellOf_withCell]
        simp only [htx, Channel.queue_pushAll, cellOf_subscribed, h.queue, List.nil_append]
        rfl
      · simp only [hsend]
        exact ⟨_, rfl⟩

/-- Both synchronisations are complete exactly when everything they have to send fits into
the queue of the connection. -/
theorem complete_iff_fits (vni : Vni) (h : Healthy (self.cellOf s)) :
    (SyncsAll self s (exec [] (self.setState ord .established) s) ↔
      syncSize s.world.mb = 0 ∨
        (self.cellOf s).state ≠ .established ∧ syncSize s.world.mb ≤ peerTxBufferSize) ∧
    (AnswersAll self s vni (exec [] (self.processSubscribe ord ⟨vni⟩) s) ↔
      (routesFor self vni s.world.mb.routeTable).card = 0 ∨
        self.remoteAddr ∉ valueAt s.world.mb.subscribers vni ∧
          (routesFor self vni s.world.mb.routeTable).card ≤ peerTxBufferSize) :=
  ⟨syncsAll_iff ord self h, answersAll_iff ord self vni h⟩

/-- A node with a subscription, an announcement and a route that it has learned. -/
def sharingNode : Node :=
  let s := Sample.node false
  { s with world := s.world.modifyMb fun mb ↦ { mb with
      mySubscriptions := {100}
      myAnnouncements := (RouteTable.new.addNextHop 100 Sample.destination Sample.nextHop none).2
      routeTable := (RouteTable.new.addNextHop 100 Sample.destination Sample.nextHop
        (some (Sample.addr 2))).2 } }

theorem complete_iff_fits_sample :
    let self := Sample.peer 1 .incoming
    syncSize sharingNode.world.mb = 2 ∧
    SyncsAll self sharingNode (exec [] (self.setState .toList .established) sharingNode) ∧
    (routesFor self 100 sharingNode.world.mb.routeTable).card = 1 ∧
    AnswersAll self sharingNode 100 (exec [] (self.processSubscribe .toList ⟨100⟩) sharingNode) := by
  intro self
  have hsync : syncSize sharingNode.world.mb = 2 := by decide
  have hroutes : (routesFor self 100 sharingNode.world.mb.routeTable).card = 1 := by decide
  have hhealthy : Healthy (self.cellOf sharingNode) := ⟨rfl, rfl, rfl⟩
  obtain ⟨hsyncs, hanswers⟩ := complete_iff_fits .toList self 100 hhealthy
  refine ⟨hsync, hsyncs.mpr (.inr ⟨by decide, by rw [hsync]; decide⟩), hroutes, ?_⟩
  exact hanswers.mpr (.inr ⟨by decide, by rw [hroutes]; decide⟩)

def crowdedNode : Node :=
  let s := Sample.node false
  { s with world := s.world.modifyMb fun mb ↦
      { mb with mySubscriptions := (Finset.range 257).image UInt32.ofNat } }

theorem crowded_incomplete : Healthy ((Sample.peer 1 .outgoing).cellOf crowdedNode) ∧
    ¬ SyncsAll (Sample.peer 1 .outgoing) crowdedNode
      (exec [] ((Sample.peer 1 .outgoing).setState .toList .established) crowdedNode) := by
  have hhealthy : Healthy ((Sample.peer 1 .outgoing).cellOf crowdedNode) := ⟨rfl, rfl, rfl⟩
  refine ⟨hhealthy, fun h ↦ ?_⟩
  have hsize : 257 ≤ syncSize crowdedNode.world.mb := by
    have hinj : Set.InjOn UInt32.ofNat (Finset.range 257) := by
      intro a ha b hb hab
      simp only [Finset.coe_range, Set.mem_Iio] at ha hb
      have hab' := congrArg UInt32.toNat hab
      simp only [UInt32.toNat_ofNat'] at hab'
      omega
    have hcard : crowdedNode.world.mb.mySubscriptions.card = 257 :=
      (Finset.card_image_of_injOn hinj).trans (Finset.card_range 257)
    rw [syncSize, hcard]
    omega
  have hfit := (syncsAll_iff .toList _ hhealthy).mp h
  rw [peerTxBufferSize] at hfit
  omega

end MetalBond.InitialSync
