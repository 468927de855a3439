import MetalBond.FeedRun
import MetalBond.QueueGrowth
import MetalBond.UpdateLog

namespace MetalBond.Convergence

open Async Task Collections HashMap Peer

variable (p : Peer) (vni : Vni)

/-- The peer is connected, it is no server, and no route has a NAT hop: loop prevention
does not apply. -/
structure Plain (s : Node) : Prop extends p.Linked s where
  noServer : (p.cellOf s).isRemoteServer = false
  noNat : ∀ r, s.world.mb.routeTable.Has r → r.2.2.hopType ≠ .nat

def Registered (s : Node) : Prop := p.remoteAddr ∈ valueAt s.world.mb.subscribers vni

variable {p}

theorem Plain.mono {s s' : Node} (h : Plain p s)
    (hpeers : s'.world.mb.peers = s.world.mb.peers)
    (hserver : (p.cellOf s').isRemoteServer = (p.cellOf s).isRemoteServer)
    (htable : ∀ r, s'.world.mb.routeTable.Has r →
      s.world.mb.routeTable.Has r ∨ r.2.2.hopType ≠ .nat) : Plain p s' where
  known := by rw [hpeers]; exact h.known
  unique := by rw [hpeers]; exact h.unique
  noServer := hserver.trans h.noServer
  noNat r hr := (htable r hr).elim (h.noNat r) id

variable (p)

/-- The subscriber is to know the routes of its VNI. -/
def feed (first : Set Route) : Feed where
  peer := p
  table := (·.routeTable)
  first := first
  Wanted r := r.1 = vni
  Kept r := r.1 = vni
  decKept _ := inferInstanceAs (Decidable (_ = _))
  wanted h := h
  Entered := Registered p vni
  Calm := Plain p
  Clear u := u.nextHop.hopType ≠ .nat
  linked h := h.toLinked
  notNat hu hnat := absurd hnat hu
  noServer := Or.inl fun h ↦ h.noServer
  calm_alike halike h := h.mono (by rw [halike.mb]) (halike.link p.id).1
    fun r hr ↦ Or.inl (by rwa [halike.mb] at hr)
  entered_alike halike := by rw [Registered, Registered, halike.mb]
  calm_chan h := h.mono rfl rfl fun r hr ↦ Or.inl hr
  entered_chan := Iff.rfl

variable {p vni} {first : Set Route} {s s' : Node}

theorem mem_wanted_routeList (ord : HashOrder) (h : Plain p s) (r : Route) :
    r ∈ p.wanted vni (routeList ord (s.world.mb.routeTable.getDestinationsByVniWithPeer vni)) ↔
      r.1 = vni ∧ s.world.mb.routeTable.Has r := by
  obtain ⟨v, dest, nh⟩ := r
  simp only [wanted, List.mem_map, List.mem_filter, Prod.exists, mem_routeList, Prod.mk.injEq,
    decide_eq_true_eq]
  constructor
  · intro hex
    obtain ⟨dest, nh, peers, ⟨⟨hhas, -⟩, -⟩, rfl, rfl, rfl⟩ := hex
    exact ⟨rfl, hhas⟩
  · intro hex
    obtain ⟨rfl, hhas⟩ := hex
    exact ⟨dest, nh, _, ⟨⟨hhas, rfl⟩, fun hex ↦ h.noNat _ hhas hex.1⟩, rfl, rfl, rfl⟩

theorem follows_sendExisting (routes : List (Destination × NextHop × Finset PeerKey)) :
    Follows (feed p vni first).link (fun l _ ↦ l = .sending [])
      (p.sendExisting vni routes) (.sending (p.wanted vni routes)) := by
  induction routes with
  | nil => exact .ret rfl
  | cons x rest ih =>
    obtain ⟨dest, nh, sources⟩ := x
    have hquiet : Quiet (feed p vni first).link
      (.sending (p.wanted vni ((dest, nh, sources) :: rest))) _ _ := Feed.quiet_link nofun
    simp only [sendExisting, isServerToServerLoop_eq, Bool.not_false, Bool.and_true]
    refine (hquiet.reading trivial _).andThen fun _ ↦ ?_
    by_cases hx : p.Exempt (dest, nh, sources)
    · have hw : p.wanted vni ((dest, nh, sources) :: rest) = p.wanted vni rest := by
        simp [wanted, hx]
      have hx' : nh.hopType = .nat ∧ some p.remoteAddr ∈ sources := hx
      rw [if_neg (by simp [hx']), hw]
      exact ih
    · have hw : p.wanted vni ((dest, nh, sources) :: rest) =
          (vni, dest, nh) :: p.wanted vni rest := by
        simp [wanted, hx]
      have hx' : ¬(nh.hopType = .nat ∧ some p.remoteAddr ∈ sources) := hx
      rw [if_pos (by simp [hx']), hw]
      have hsend : Follows (feed p vni first).link
          (fun l r ↦ l = .sending (p.wanted vni rest) ∧ r = .ok ())
          (p.sendUpdate .add vni dest nh) (.sending ((vni, dest, nh) :: p.wanted vni rest)) :=
        Feed.follows_tell rfl
      refine hsend.bind fun l r h ↦ ?_
      obtain ⟨rfl, rfl⟩ := h
      exact ih

theorem follows_sendSnapshot (ord : HashOrder) :
    Follows (feed p vni first).link (fun l _ ↦ l = .sending []) (p.sendSnapshot ord vni)
      .entered := by
  have hread : Follows (feed p vni first).link
      (fun l dests ↦ l = .sending (p.wanted vni (routeList ord dests)))
      (reading .metalbondState fun w ↦ w.mb.routeTable.getDestinationsByVniWithPeer vni)
      .entered :=
    Feed.follows_look fun s hs ↦ mem_wanted_routeList ord hs
  refine hread.bind fun l dests hl ↦ ?_
  subst hl
  exact follows_sendExisting (routeList ord dests)

theorem quiets_record (s : Node) : (feed p vni first).Quiets s { s with
    world := s.world.modifyCell p.id fun c ↦
      { c with subscribedVnisRemote := insert vni c.subscribedVnisRemote } } := by
  have hcell := s.world.modifyCell_cell p.id fun c ↦
    { c with subscribedVnisRemote := insert vni c.subscribedVnisRemote }
  refine ⟨fun h ↦ h.mono rfl ?_ fun r hr ↦ Or.inl hr, Iff.rfl, ?_, rfl⟩
  · simp only [cellOf, hcell]
  · simp only [feed, received, cellOf, hcell]

theorem follows_recordSubscription (ord : HashOrder) {l : LinkStage} {wasInserted : Bool}
    (h : l = .entered ∧ wasInserted = true ∨ l = .sending [] ∧ wasInserted = false) :
    Follows (feed p vni first).link (fun l _ ↦ l = .sending [])
      (p.recordSubscription ord vni wasInserted) l := by
  have hl : l ≠ .looking := by
    rcases h with ⟨rfl, -⟩ | ⟨rfl, -⟩ <;> nofun
  refine ((Feed.quiet_link hl).writing trivial quiets_record).andThen fun _ ↦ ?_
  rcases h with ⟨rfl, rfl⟩ | ⟨rfl, rfl⟩
  · exact follows_sendSnapshot ord
  · exact .ret rfl

theorem registered_addSubscriber (s : Node) :
    Registered p vni { s with world := (addSubscriber p.remoteAddr vni s.world).2 } := by
  simp [Registered, subscribers_addSubscriber]

theorem follows_processSubscribe (ord : HashOrder) {l : LinkStage}
    (hidle : (feed p vni first).link.Idle l) :
    Follows (feed p vni first).link (fun l _ ↦ (feed p vni first).link.Idle l)
      (p.processSubscribe ord ⟨vni⟩) l := by
  have hl : l ≠ .looking := by
    rcases hidle with rfl | rfl <;> nofun
  have hplain : ∀ s : Node, Plain p s →
      Plain p { s with world := (addSubscriber p.remoteAddr vni s.world).2 } :=
    fun s h ↦ h.mono rfl rfl fun r hr ↦ Or.inl hr
  have hadd : Follows (feed p vni first).link
      (fun l b ↦ l = .entered ∧ b = true ∨ l = .sending [] ∧ b = false)
      (update (addSubscriber p.remoteAddr vni)) l := by
    refine .update fun s hs ↦ ?_
    rcases hidle with rfl | rfl
    · refine ⟨.entered, .enter (hplain s) (registered_addSubscriber s) rfl rfl, Or.inl ⟨rfl, ?_⟩⟩
      exact decide_eq_true hs.2
    · refine ⟨.sending [], .quiet nofun ⟨hplain s, ?_, rfl, rfl⟩, Or.inr ⟨rfl, ?_⟩⟩
      · exact iff_of_true (registered_addSubscriber s) hs.1
      · exact decide_eq_false (not_not_intro hs.1)
  have hwrite : Follows (feed p vni first).link
      (fun l b ↦ l = .entered ∧ b = true ∨ l = .sending [] ∧ b = false)
      (writing .metalbondState (addSubscriber p.remoteAddr vni)) l := by
    refine ((Feed.quiet_link hl).acquires trivial).andThen fun _ ↦ hadd.bind fun l b h ↦ ?_
    have hl : l ≠ .looking := by
      rcases h with ⟨rfl, -⟩ | ⟨rfl, -⟩ <;> nofun
    exact ((Feed.quiet_link hl).releases trivial).andThen fun _ ↦ .ret h
  exact hwrite.bind fun l b h ↦
    (follows_recordSubscription ord h).mono fun l _ hl ↦ Or.inr hl

def NoNat (msg : Pb.Update) : Prop :=
  ∀ action vni dest nh, parseUpdate msg = .ok (action, vni, dest, nh) → nh.hopType ≠ .nat

theorem background_applyUpdate {nh : NextHop} (hnh : nh.hopType ≠ .nat) (action : UpdateAction)
    (v : Vni) (dest : Destination) (source : PeerKey) (s : Node) :
    (feed p vni first).Background s
      { s with world := (applyUpdate action v dest nh source s.world).2 } := by
  have htable : ∀ t : RouteTable,
      (∀ r, t.Has r → s.world.mb.routeTable.Has r ∨ r = (v, dest, nh)) →
      (feed p vni first).Background s { s with
        world := s.world.modifyMb fun mb ↦ { mb with routeTable := t } } := by
    refine fun t ht ↦ ⟨[], fun h ↦ ?_, Iff.rfl, rfl, nofun, rfl⟩
    refine h.mono rfl rfl fun r hr ↦ (ht r hr).imp_right ?_
    rintro rfl
    exact hnh
  have hstore : ∀ peers r, (s.world.mb.routeTable.store (v, dest, nh) peers).Has r →
      s.world.mb.routeTable.Has r ∨ r = (v, dest, nh) := by
    intro peers r hr
    by_cases heq : r = (v, dest, nh)
    · exact Or.inr heq
    · rw [RouteTable.Has, RouteTable.sources_store, if_neg heq] at hr
      exact Or.inl hr
  cases action with
  | add => exact htable _ (hstore _)
  | remove =>
    unfold applyUpdate removeNextHop
    by_cases hmem : source ∈ s.world.mb.routeTable.sources (v, dest, nh)
    · rw [RouteTable.removeNextHop_of_mem hmem]
      exact htable _ (hstore _)
    · obtain ⟨e, he⟩ := RouteTable.removeNextHop_of_notMem hmem
      rw [he]
      exact Std.Refl.refl s

theorem confined_processUpdate (q : Peer) {msg : Pb.Update} (h : NoNat msg) :
    Confined (feed p vni first).Background (q.processUpdate msg) :=
  q.confined_processUpdate msg fun action v dest nh hparse ↦
    ⟨fun _ s ↦ Feed.background_send (h action v dest nh hparse) s,
      background_applyUpdate (h action v dest nh hparse) action v dest _⟩

/-- The subscriber handles its `SUBSCRIBE`, and the distributor takes the next update. Any
other task handles the `UPDATE` of some peer or writes a message to the subscriber. -/
inductive Work (p : Peer) (vni : Vni) {κ : Type} :
    Party κ → Option InternalUpdate → Code (Except Error Unit) → Prop
  | processSubscribe (ord : HashOrder) : Work p vni .link none (p.processSubscribe ord ⟨vni⟩)
  | distribute (ord : HashOrder) (u : InternalUpdate) :
    Work p vni .distributor (some u) (distribute ord u)
  | processUpdate (k : κ) (q : Peer) (msg : Pb.Update) (h : NoNat msg) :
    Work p vni (.other k) none (q.processUpdate msg)
  | writeOutgoing (k : κ) : Work p vni (.other k) none p.writeOutgoing

variable {κ : Type}

theorem plays : (feed p vni first).Plays (Work p vni : Party κ → _ → _ → Prop) where
  link o t h := by
    cases h with
    | processSubscribe ord => exact ⟨rfl, fun l hl ↦ follows_processSubscribe ord hl⟩
  distributor o t h := by
    cases h with
    | distribute ord u => exact ⟨ord, u, rfl, rfl⟩
  other k o t h := by
    cases h with
    | processUpdate _ q msg h => exact ⟨rfl, confined_processUpdate q h⟩
    | writeOutgoing => exact ⟨rfl, Feed.confined_writeOutgoing⟩

theorem logs_sendExisting (routes : List (Destination × NextHop × Finset PeerKey)) :
    Follows (tableMonitor first).protocol (fun σ _ ↦ σ = none) (p.sendExisting vni routes) none := by
  induction routes with
  | nil => exact .ret rfl
  | cons x rest ih =>
    refine (quiet_ledger.reading (by simp) _).andThen fun _ ↦ ?_
    split
    · refine .andThen (quiet_sendMessage quiet_ledger (fun _ _ ↦ rfl) _) fun r ↦ ?_
      cases r with
      | ok _ => exact ih
      | error e => exact (quiet_ledger.modify fun _ ↦ rfl).andThen fun _ ↦ .ret rfl
    · exact ih

theorem Work.logs {i : Party κ} {o : Option InternalUpdate} {t : Code (Except Error Unit)}
    (h : Work p vni i o t) :
    Follows (tableMonitor first).protocol (fun σ _ ↦ σ = none) t none := by
  cases h with
  | processSubscribe ord =>
    refine .andThen (Monitor.follows_writing (fun _ ↦ rfl) fun _ ↦ rfl) fun wasInserted ↦ ?_
    refine (quiet_ledger.writing (by simp) fun _ ↦ rfl).andThen fun _ ↦ ?_
    cases wasInserted with
    | true => exact (quiet_ledger.reading (by simp) _).andThen fun _ ↦ logs_sendExisting _
    | false => exact .ret rfl
  | distribute ord u => exact follows_distribute ord u
  | processUpdate _ q msg _ => exact follows_processUpdate q msg
  | writeOutgoing =>
    refine (quiet_ledger.modify fun s ↦ ?_).andThen fun _ ↦ .ret rfl
    rw [ledger, (p.received_takeOutgoing s).2.mb]
    rfl

variable (p vni) in
/-- What the messages put on the subscriber's queue say about the VNI. -/
def told (s : Node) : Set Route :=
  replay ∅ ((p.received s).filter fun d ↦ decide (d.subject.1 = vni))

structure Begins (p : Peer) (vni : Vni) (c : Tasks (Party κ)) : Prop extends Unused c where
  plain : Plain p c.shared
  unregistered : ¬ Registered p vni c.shared
  untold : told p vni c.shared = ∅

def Step [DecidableEq κ] (p : Peer) (vni : Vni) (c c' : Tasks (Party κ)) : Prop :=
  Pool.Step (Work p vni) c c' ∧ p.HasRoom c.shared

/-- The subscriber is not told that a route is gone while its own task is bound to tell it
of the route from the snapshot. -/
def Timely (p : Peer) (vni : Vni) (c c' : Tasks (Party κ)) : Prop :=
  ∀ r, p.received c'.shared = p.received c.shared ++ [.remove r] →
    ¬ Bound (fun s ↦ Registered p vni s ∧ p.HasRoom s)
      (fun s s' ↦ p.received s' = p.received s ++ [.add r]) (c.code .link)

def Early (p : Peer) (vni : Vni) (l : LinkStage) (d : DistStage) (s : Node) : Prop :=
  l = .fresh → told p vni s = ∅ ∧ ∀ u, d = .owing u → u.vni ≠ vni

theorem told_congr (h : p.received s' = p.received s) : told p vni s' = told p vni s := by
  rw [told, told, h]

theorem early_effect {t : Code (Except Error Unit)} {l l' : LinkStage} {d d' : DistStage}
    (heffect : (feed p vni first).Effect t l d s l' d' s')
    (hentered : Registered p vni s ↔ l ≠ .fresh) (h : Early p vni l d s) :
    Early p vni l' d' s' := by
  intro hl
  cases heffect with
  | publish hpub => exact ⟨(told_congr hpub.received).trans (h hl).1, (h hl).2⟩
  | link _ _ hne => exact absurd hl hne
  | enter => cases hl
  | snapshot => cases hl
  | send => cases hl
  | take => exact ⟨(h hl).1, by rintro u ⟨⟩⟩
  | @owe _ u _ hlisted =>
    refine ⟨(h hl).1, ?_⟩
    rintro _ ⟨⟩ rfl
    exact hentered.mp hlisted hl
  | skip => exact ⟨(h hl).1, by rintro u ⟨⟩⟩
  | @deliver _ u _ _ htells =>
    refine ⟨?_, by rintro u ⟨⟩⟩
    have hvni : u.toChange.subject.1 ≠ vni := by
      rw [InternalUpdate.toChange, subject_changeOf]
      exact (h hl).2 u rfl
    have hreceived : p.received s' = p.received s ++ [u.toChange] := htells.received
    rw [told, hreceived, List.filter_append, List.filter_singleton, decide_eq_false hvni]
    exact (congrArg (replay ∅) (List.append_nil _)).trans (h hl).1

structure Following (p : Peer) (vni : Vni) (first : Set Route) (l : LinkStage) (d : DistStage)
    (c : Tasks (Party κ)) : Prop where
  fed : (feed p vni first).Fed l d c
  sound : ((feed p vni first).catchUp l d c.shared).Sound
  early : Early p vni l d c.shared

theorem Following.step [DecidableEq κ] {l : LinkStage} {d : DistStage} {c c' : Tasks (Party κ)}
    (h : Following p vni first l d c) (hlogs : (tableMonitor first).Sound c)
    (hstep : Step p vni c c') (htimely : Timely p vni c c') :
    ∃ l' d', Following p vni first l' d' c' := by
  obtain ⟨l', d', heffect, hfed⟩ := h.fed.step plays hlogs hstep.2 hstep.1
  have hfresh : ∀ u : InternalUpdate,
      p.remoteAddr ∉ valueAt c.shared.world.mb.subscribers u.vni → u.vni = vni → l = .fresh := by
    rintro u hu rfl
    by_contra hl
    exact hu (h.fed.entered.mpr hl)
  refine ⟨l', d', hfed, heffect.sound h.sound ?_ ?_, ?_⟩
  · intro ord u _ hunlisted hd hwanted
    obtain rfl := hfresh u hunlisted hwanted
    obtain ⟨huntold, -⟩ := h.early rfl
    have hnothing : ((feed p vni first).catchUp .fresh d c.shared).told = ∅ :=
      (Set.union_empty _).trans huntold
    refine ⟨fun _ hsome ↦ (nomatch hsome), fun _ ↦ ?_⟩
    rw [hnothing]
    exact Set.notMem_empty u.route
  · rintro rest r rfl hremove hr
    have hpost : ∀ rest (a : Except Error Unit),
        (feed p vni first).link.Idle (.sending rest) → rest = [] := by
      rintro rest - (h | h) <;> cases h
      rfl
    have hopen : (feed p vni first).Open c.shared := ⟨h.fed.entered.mpr nofun, hstep.2⟩
    exact htimely r hremove (Feed.bound_of_sending hpost hopen h.fed.link hr)
  · exact early_effect heffect h.fed.entered h.early

theorem following_of_begins {c : Tasks (Party κ)} (h : Begins p vni c) :
    Following p vni c.shared.world.mb.routeTable.present .fresh .idle c where
  fed := Feed.fed_of_unused h.toUnused h.plain h.unregistered
  sound := Feed.sound_of_unused h.toUnused h.untold
  early _ := ⟨h.untold, nofun⟩

def Followed (p : Peer) (vni : Vni) (first : Set Route) (c : Tasks (Party κ)) : Prop :=
  (tableMonitor first).Sound c ∧ ∃ l d, Following p vni first l d c

/-- When every task has finished and the channel is drained, the subscriber was told the
routes of the table. -/
theorem told_eq_table [DecidableEq κ] {c c' : Tasks (Party κ)} (hbegins : Begins p vni c)
    (hrun : Run (fun c c' ↦ Step p vni c c' ∧ Timely p vni c c') c c')
    (hidle : ∀ i, c'.Idle i) (hdrained : c'.shared.chan.queue = [])
    (hregistered : Registered p vni c'.shared) :
    told p vni c'.shared = {r | r.1 = vni ∧ c'.shared.world.mb.routeTable.Has r} := by
  let first := c.shared.world.mb.routeTable.present
  have hinit : Followed p vni first c :=
    ⟨hbegins.toUnused.sound _, _, _, following_of_begins hbegins⟩
  obtain ⟨hlogs, l, d, h⟩ : Followed p vni first c' := by
    refine hrun.invariant hinit ?_
    rintro c c' ⟨hlogs, l, d, h⟩ ⟨hstep, htimely⟩
    exact ⟨hlogs.step (fun _ _ _ ↦ Work.logs) hstep.1, h.step hlogs hstep htimely⟩
  exact h.fed.follower_eq h.sound hlogs hidle hdrained hregistered

section Runs

variable [DecidableEq κ] {c c' : Tasks (Party κ)}

abbrev Filling (p : Peer) (vni : Vni) (c c' : Tasks (Party κ)) : Prop :=
  Pool.Step (Work p vni) c c' ∧ Fills p c.shared c'.shared

theorem timely_of_filling (hrun : Run (Filling p vni) c c') (hroom : p.HasRoom c'.shared)
    (hkept : ∀ r, .remove r ∉ p.received c'.shared) :
    Run (fun c c' ↦ Step p vni c c' ∧ Timely p vni c c') c c' := by
  refine (hrun.toward Pool.shared).mono fun d d' h ↦ ?_
  obtain ⟨hstep, hbefore, hafter⟩ := h
  exact ⟨⟨hstep, hbefore.hasRoom hroom⟩, fun r hremove ↦ (hafter.not_told (hkept r) hremove).elim⟩

end Runs

end MetalBond.Convergence

namespace MetalBond

open Async Task Collections HashMap Peer Convergence

namespace Sample

/-- A server that is connected to one peer and has learned a route from another. -/
def servingNode : Node :=
  let s := node true
  { s with world := s.world.modifyMb fun mb ↦ { mb with
      peers := mb.peers.insert (peer 1 .incoming).remoteAddr (peer 1 .incoming)
      routeTable := (mb.routeTable.addNextHop route.1 route.2.1 route.2.2
        (some (peer 2 .incoming).remoteAddr)).2 } }

def awaitedNode : Node := (peer 1 .incoming).subscribed 100 servingNode

theorem has_servingNode (r : Route) : servingNode.world.mb.routeTable.Has r ↔ r = route := by
  have hsources : servingNode.world.mb.routeTable.sources r =
      if r = route then {some (peer 2 .incoming).remoteAddr} else ∅ := sources_learned _ r
  rw [RouteTable.Has, hsources]
  split <;> simp_all

theorem plain_servingNode : Plain (peer 1 .incoming) servingNode where
  known := rfl
  unique addr q h _ := by
    by_contra haddr
    have hnone : servingNode.world.mb.peers.lookup addr = none :=
      (Finmap.lookup_insert_of_ne _ haddr).trans (Finmap.lookup_empty addr)
    cases hnone.symm.trans h
  noServer := rfl
  noNat r hr := by
    rw [(has_servingNode r).mp hr]
    nofun

theorem begins_servingNode : Begins (peer 1 .incoming) 100 (tasks (Party Unit) servingNode) where
  toUnused := unused_tasks rfl rfl
  plain := plain_servingNode
  unregistered := List.not_mem_nil
  untold := rfl

noncomputable def foundRoutes : List (Destination × NextHop × Finset PeerKey) :=
  routeList default (awaitedNode.world.mb.routeTable.getDestinationsByVniWithPeer 100)

theorem exec_sendFound {s : Node} (hconnected : ((peer 1 .incoming).cellOf s).tx.closed = false)
    (hroom : ((peer 1 .incoming).cellOf s).tx.queue.length + 1 < peerTxBufferSize) :
    ∃ s', exec [] ((peer 1 .incoming).sendExisting 100 foundRoutes) s = .done (.ok ()) [] s' ∧
      (peer 1 .incoming).received s' = (peer 1 .incoming).received s ++ [.add route] ∧
      (peer 1 .incoming).HasRoom s' ∧ s'.world.mb = s.world.mb ∧ s'.chan = s.chan := by
  have hfound : (peer 1 .incoming).wanted 100 foundRoutes = [route] :=
    snapshotFor_learned default _ rfl
  obtain ⟨tx, hsend, htx⟩ := PeerCell.sendRoutes_of_room [route] hconnected (by simp; omega)
  rw [exec_sendExisting, hfound, hsend]
  refine ⟨_, rfl, ?_, ⟨?_, ?_⟩, rfl, rfl⟩
  · simp only [received, cellOf_withCell, htx, Channel.history_pushAll, List.filterMap_append]
    simp [changeOf, route]
  · simpa [htx] using hconnected
  · simpa [htx] using hroom

noncomputable def awaiting : Tasks (Party Unit) :=
  (tasks (Party Unit) servingNode).set .link
    ⟨[], (peer 1 .incoming).sendExisting 100 foundRoutes⟩ awaitedNode

theorem unguarded_awaiting (i : Party Unit) : awaiting.held i = [] := by
  rw [awaiting, Pool.unguarded_set fun _ ↦ rfl]

theorem run_awaiting :
    Run (Filling (peer 1 .incoming) 100) (tasks (Party Unit) servingNode) awaiting := by
  let p := peer 1 .incoming
  let c := tasks (Party Unit) servingNode
  have hothers : ∀ j, j ≠ Party.link → c.held j = [] := fun j _ ↦ rfl
  have hstart : Filling p 100 c (c.set .link ⟨[], p.processSubscribe default ⟨100⟩⟩ servingNode) :=
    ⟨Pool.Step.start Party.link _ (idle_tasks ..) (Work.processSubscribe default), Std.Refl.refl _⟩
  have hrecord : ∀ s : Node, Fills p s { s with world := s.world.modifyCell p.id fun c ↦
      { c with subscribedVnisRemote := insert 100 c.subscribedVnisRemote } } :=
    fun s ↦ fills_modifyCell p s fun _ ↦ rfl
  refine .cons hstart ?_
  refine (Pool.run_bind_within (R := Fills p) (g := fun b ↦ p.recordSubscription default 100 b)
    hothers (.writing fun s ↦ fills_of_tx rfl) (exec_writing [] _ rfl _)).trans ?_
  refine (Pool.run_bind_within (R := Fills p) (g := fun _ : Unit ↦ p.sendSnapshot default 100)
    hothers (.writing hrecord) (exec_writing [] _ rfl _)).trans ?_
  exact Pool.run_bind_within (R := Fills p)
    (g := fun dests ↦ p.sendExisting 100 (routeList default dests))
    hothers (.reading ..) (exec_reading [] _ rfl _)

def withdrawnNode : Node :=
  (exec [] ((peer 2 .incoming).processUpdate (update .remove)) awaitedNode).shared

def withdrawal : InternalUpdate :=
  ⟨.remove, 100, destination, nextHop, some (peer 2 .incoming).remoteAddr⟩

def poppedNode : Node := { withdrawnNode with chan := ⟨[withdrawal], [], false⟩ }

theorem exec_distribute_withdrawal (ord : HashOrder) : ∃ s,
    exec [] (distribute ord withdrawal) poppedNode = .done (.ok ()) [] s ∧
      (peer 1 .incoming).received s = [.remove route] ∧
      ((peer 1 .incoming).cellOf s).tx.closed = false ∧
      ((peer 1 .incoming).cellOf s).tx.queue.length = 1 ∧
      s.world.mb = poppedNode.world.mb ∧ s.chan = poppedNode.chan := by
  rw [exec_distribute, @peersToNotify_singleton ord withdrawal.vni poppedNode.world.mb
    (peer 1 .incoming).remoteAddr (peer 1 .incoming) rfl rfl]
  exact ⟨_, rfl, rfl, rfl, rfl, rfl, rfl⟩

end Sample

theorem Convergence.told_eq_table_sample : ∃ s : Node,
    Sample.route ∈ told (Sample.peer 1 .incoming) 100 s ∧
      told (Sample.peer 1 .incoming) 100 s = {r | r.1 = 100 ∧ s.world.mb.routeTable.Has r} := by
  let p := Sample.peer 1 .incoming
  obtain ⟨s, hexec, hreceived, hroom, hmb, hchan⟩ := @Sample.exec_sendFound Sample.awaitedNode
    rfl (by decide)
  have hend : Run (Filling p 100) Sample.awaiting
      (Sample.awaiting.set .link ⟨[], .ret (.ok ())⟩ s) :=
    Pool.run_task (fun j _ ↦ Sample.unguarded_awaiting j) rfl
      ((acts_fills p).composes.sendExisting ..) hexec
  have hnew : p.received s = [.add Sample.route] := hreceived
  have htimely := timely_of_filling (Sample.run_awaiting.trans hend) hroom fun r hr ↦ by
    rw [Pool.shared_set, hnew] at hr
    cases List.mem_singleton.mp hr
  refine ⟨s, ?_, told_eq_table Sample.begins_servingNode htimely (fun i ↦ ?_) ?_ ?_⟩
  · rw [told, hnew]
    exact Set.mem_insert _ _
  · cases i <;> exact ⟨_, rfl⟩
  · exact congrArg Channel.queue hchan
  · simp only [Pool.shared_set, Registered, hmb]
    exact Finset.mem_insert_self _ _

/-- The route is withdrawn between the snapshot and its sending: the `Remove` arrives first,
and the `Add` of the snapshot stays. -/
theorem Convergence.snapshot_revives_route : ¬ ∀ c c' : Tasks (Party Unit),
    Begins (Sample.peer 1 .incoming) 100 c → Run (Step (Sample.peer 1 .incoming) 100) c c' →
      (∀ i, c'.Idle i) → c'.shared.chan.queue = [] →
      Registered (Sample.peer 1 .incoming) 100 c'.shared →
      told (Sample.peer 1 .incoming) 100 c'.shared =
        {r | r.1 = 100 ∧ c'.shared.world.mb.routeTable.Has r} := by
  intro hevery
  let p := Sample.peer 1 .incoming
  let q := Sample.peer 2 .incoming
  let c := Sample.awaiting
  have hnoNat : NoNat (Sample.update .remove) := by
    intro _ _ _ _ hex
    cases hex
    nofun
  let c₁ := c.set (.other ()) ⟨[], .ret (.ok ())⟩ Sample.withdrawnNode
  have hwithdraw : Run (Filling p 100) c c₁ :=
    Pool.run_start Sample.unguarded_awaiting ⟨_, rfl⟩ (Work.processUpdate () q _ hnoNat)
      ((acts_fills _).composes.processUpdate _) rfl
  have hheld₁ : ∀ i, c₁.held i = [] := Pool.unguarded_set Sample.unguarded_awaiting _ _ _
  obtain ⟨s₂, hforward, htold₂, hconnected, hlength, hmb₂, hchan₂⟩ :=
    Sample.exec_distribute_withdrawal default
  let c₂ := c₁.set .distributor ⟨[], .ret (.ok ())⟩ s₂
  have hdistribute : Run (Filling p 100) c₁ c₂ :=
    Pool.run_receive hheld₁ ⟨_, rfl⟩ rfl (Work.distribute default Sample.withdrawal)
      (fills_of_tx rfl) (fills_distribute ..) hforward
  have hheld₂ : ∀ i, c₂.held i = [] := Pool.unguarded_set hheld₁ _ _ _
  have hroom₂ : (p.cellOf s₂).tx.queue.length + 1 < peerTxBufferSize := by
    rw [hlength]
    decide
  obtain ⟨s₃, hsend, htold₃, hroom₃, hmb₃, hchan₃⟩ := Sample.exec_sendFound hconnected hroom₂
  let c₃ := c₂.set .link ⟨[], .ret (.ok ())⟩ s₃
  have hlate : Run (Filling p 100) c₂ c₃ :=
    Pool.run_task (fun j _ ↦ hheld₂ j) rfl ((acts_fills p).composes.sendExisting ..) hsend
  have hrun := Sample.run_awaiting.trans (hwithdraw.trans (hdistribute.trans hlate))
  have hidle : ∀ i, c₃.Idle i := by
    rintro (_ | _ | _) <;> exact ⟨_, rfl⟩
  have hmb : s₃.world.mb = Sample.poppedNode.world.mb := hmb₃.trans hmb₂
  have hregistered : Registered p 100 s₃ := by
    rw [Registered, hmb]
    exact Finset.mem_insert_self _ _
  have htold := hevery _ c₃ Sample.begins_servingNode (run_hasRoom Pool.shared hrun hroom₃) hidle
    (congrArg Channel.queue (hchan₃.trans hchan₂)) hregistered
  have hmem : Sample.route ∈ told p 100 s₃ := by
    rw [told, htold₃, htold₂]
    exact Set.mem_insert _ _
  have hgone : ¬ s₃.world.mb.routeTable.Has Sample.route := by
    rw [hmb]
    decide
  rw [Pool.shared_set] at htold
  rw [htold] at hmem
  exact hgone hmem.2

end MetalBond
