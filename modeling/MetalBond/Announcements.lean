import MetalBond.FeedRun
import MetalBond.QueueGrowth

namespace MetalBond.Announcements

open Async Task Collections HashMap Peer

variable (p : Peer)

structure ClientOf (s : Node) : Prop extends p.Linked s where
  client : s.world.mb.isServer = false
  own : ∀ r, ∀ k ∈ s.world.mb.myAnnouncements.sources r, k = none

def Established (s : Node) : Prop := (p.cellOf s).state = .established

variable {p}

theorem ClientOf.mono {s s' : Node} (h : ClientOf p s)
    (hpeers : s'.world.mb.peers = s.world.mb.peers)
    (hserver : s'.world.mb.isServer = s.world.mb.isServer)
    (hown : ∀ r, ∀ k ∈ s'.world.mb.myAnnouncements.sources r,
      k ∈ s.world.mb.myAnnouncements.sources r ∨ k = none) : ClientOf p s' where
  known := by rw [hpeers]; exact h.known
  unique := by rw [hpeers]; exact h.unique
  client := hserver.trans h.client
  own r k hk := (hown r k hk).elim (h.own r k) id

theorem ClientOf.has_iff {s : Node} (h : ClientOf p s) (r : Route) :
    s.world.mb.myAnnouncements.Has r ↔ none ∈ s.world.mb.myAnnouncements.sources r := by
  refine ⟨fun hr ↦ ?_, RouteTable.has_of_mem⟩
  obtain ⟨k, hk⟩ := Finset.nonempty_iff_ne_empty.mpr hr
  rwa [← h.own r k hk]

variable (p)

def Listed (subs : HashMap Vni (Finset SocketAddr)) (vni : Vni) : Prop :=
  p.remoteAddr ∈ valueAt subs vni

instance (subs : HashMap Vni (Finset SocketAddr)) (vni : Vni) : Decidable (Listed p subs vni) :=
  inferInstanceAs (Decidable (_ ∈ _))

def feed (subs : HashMap Vni (Finset SocketAddr)) (first : Set Route) : Feed where
  peer := p
  table := (·.myAnnouncements)
  first := first
  Wanted _ := True
  Kept r := Listed p subs r.1
  decKept _ := inferInstance
  wanted _ := trivial
  Entered := Established p
  Calm s := ClientOf p s ∧ s.world.mb.subscribers = subs
  Clear u := u.sourcePeer = none
  linked h := h.1.toLinked
  notNat hu _ h := by rw [hu] at h; cases h
  noServer := Or.inr ⟨id, fun h ↦ h.1.client⟩
  calm_alike halike h := by
    refine ⟨h.1.mono (by rw [halike.mb]) (by rw [halike.mb]) fun r k hk ↦ Or.inl ?_, ?_⟩
    · rwa [halike.mb] at hk
    · rw [halike.mb]
      exact h.2
  entered_alike halike := by
    have hstate := (halike.link p.id).2.1
    rw [Established, Established, cellOf, hstate]
    rfl
  calm_chan h := ⟨h.1.mono rfl rfl fun r k hk ↦ Or.inl hk, h.2⟩
  entered_chan := Iff.rfl

variable {p} {subs : HashMap Vni (Finset SocketAddr)} {first : Set Route} {s s' : Node}
  (ord : HashOrder)

theorem follows_sendInitialAnnouncements (routes : List Route) :
    Follows (feed p subs first).link (fun l _ ↦ l = .sending []) (p.sendInitialAnnouncements routes)
      (.sending routes) := by
  induction routes with
  | nil => exact .ret rfl
  | cons r rest ih =>
    obtain ⟨vni, dest, nh⟩ := r
    have hsend : Follows (feed p subs first).link (fun l r ↦ l = .sending rest ∧ r = .ok ())
        (p.sendUpdate .add vni dest nh) (.sending ((vni, dest, nh) :: rest)) :=
      Feed.follows_tell trivial
    refine hsend.bind fun l r h ↦ ?_
    obtain ⟨rfl, rfl⟩ := h
    exact ih

theorem follows_sendInitialSubscribes (vnis : List Vni) :
    Follows (feed p subs first).link (fun l _ ↦ l = .entered) (p.sendInitialSubscribes vnis)
      .entered := by
  have hquiet : Quiet (feed p subs first).link .entered _ _ := Feed.quiet_link nofun
  induction vnis with
  | nil => exact .ret rfl
  | cons vni rest ih =>
    refine (hquiet.update fun s ↦ Feed.quiets_sent_other rfl).andThen fun r ↦ ?_
    cases r with
    | ok _ => exact ih
    | error e => exact (hquiet.modify Feed.quiets_shutdown).andThen fun _ ↦ ih

theorem follows_initialSync :
    Follows (feed p subs first).link (fun l _ ↦ l = .sending []) (p.initialSync ord) .entered := by
  have hquiet : Quiet (feed p subs first).link .entered _ _ := Feed.quiet_link nofun
  refine (hquiet.reading trivial _).andThen fun localSubs ↦ ?_
  refine (follows_sendInitialSubscribes (ord.list localSubs)).andThen fun _ ↦ ?_
  have hlook : Follows (feed p subs first).link
      (fun l anns ↦ l = .sending (announcementList ord anns))
      (reading .metalbondState fun w ↦ w.mb.myAnnouncements.getLocalAnnouncements) .entered := by
    refine Feed.follows_look fun s hs r ↦ ?_
    rw [mem_announcementList]
    exact (hs.1.has_iff r).symm.trans (true_and _).to_iff.symm
  refine hlook.bind fun l anns hl ↦ ?_
  subst hl
  exact follows_sendInitialAnnouncements _

theorem follows_establish :
    Follows (feed p subs first).link (fun l _ ↦ l = .sending []) (p.setState ord .established)
      .fresh := by
  have hread : Follows (feed p subs first).link (fun l old ↦ l = .fresh ∧ old ≠ .established)
      (gets fun w ↦ (w.cell p.id).state) .fresh :=
    .gets fun s hs ↦ ⟨.fresh, .quiet (fun h ↦ by cases h) (Std.Refl.refl s), rfl, hs.2⟩
  have henter : Follows (feed p subs first).link (fun l _ ↦ l = .entered)
      (modify fun w ↦ w.modifyCell p.id fun c ↦ { c with state := .established }) .fresh := by
    refine .modify fun s _ ↦ ⟨.entered, .enter ?_ ?_ ?_ rfl, rfl⟩
    · exact fun h ↦ ⟨h.1.mono rfl rfl fun r k hk ↦ Or.inl hk, h.2⟩
    · simp only [feed, Established, cellOf, World.modifyCell_cell]
    · simp only [feed, received, cellOf, World.modifyCell_cell]
  have hfresh : Quiet (feed p subs first).link .fresh _ _ := Feed.quiet_link fun h ↦ by cases h
  have hentered : Quiet (feed p subs first).link .entered _ _ := Feed.quiet_link fun h ↦ by cases h
  refine (hfresh.acquires trivial).andThen fun _ ↦ hread.bind fun l old h ↦ ?_
  obtain ⟨rfl, hold⟩ := h
  rw [if_neg hold]
  refine henter.andThen fun _ ↦ (hentered.releases trivial).andThen fun _ ↦ ?_
  rw [if_pos ⟨rfl, hold⟩]
  exact follows_initialSync ord

theorem follows_processKeepalive {l : LinkStage} (hidle : (feed p subs first).link.Idle l) :
    Follows (feed p subs first).link (fun l _ ↦ (feed p subs first).link.Idle l)
      (p.processKeepalive ord) l := by
  have hl : l ≠ .looking := by
    rcases hidle with rfl | rfl <;> nofun
  have hread : Follows (feed p subs first).link
      (fun l' st ↦ l' = l ∧ (l = .fresh ∧ st ≠ .established ∨ l = .sending [] ∧ st = .established))
      (gets fun w ↦ (w.cell p.id).state) l := by
    refine .gets fun s hs ↦ ⟨l, .quiet (fun h ↦ absurd h hl) (Std.Refl.refl s), rfl, ?_⟩
    rcases hidle with rfl | rfl
    · exact Or.inl ⟨rfl, hs.2⟩
    · exact Or.inr ⟨rfl, hs.1⟩
  have hstate : Follows (feed p subs first).link
      (fun l' st ↦ l' = l ∧ (l = .fresh ∧ st ≠ .established ∨ l = .sending [] ∧ st = .established))
      p.getState l := by
    refine ((Feed.quiet_link hl).acquires trivial).andThen fun _ ↦ hread.bind fun l' st h ↦ ?_
    obtain ⟨rfl, h⟩ := h
    exact ((Feed.quiet_link hl).releases trivial).andThen fun _ ↦ .ret ⟨rfl, h⟩
  refine hstate.bind fun l' st h ↦ ?_
  obtain ⟨rfl, ⟨rfl, hst⟩ | ⟨rfl, rfl⟩⟩ := h
  · have hestablish : Follows (feed p subs first).link (fun l _ ↦ (feed p subs first).link.Idle l)
        (do p.setState ord .established; return .ok () : Code (Except Error Unit)) .fresh :=
      (follows_establish ord).andThen fun _ ↦ .ret (Or.inr rfl)
    cases p.direction with
    | incoming =>
      by_cases hsent : st = .helloSent
      · simp only [hsent, if_true]
        exact hestablish
      · simp only [hsent, hst, if_false]
        exact .ret (Or.inl rfl)
    | outgoing =>
      by_cases hreceived : st = .helloReceived
      · simp only [hreceived, if_true]
        exact hestablish
      · simp only [hreceived, hst, if_false]
        exact .ret (Or.inl rfl)
  · cases p.direction with
    | incoming =>
      have hquiet : Quiet (feed p subs first).link (.sending []) _ _ := Feed.quiet_link nofun
      exact (hquiet.update fun s ↦ Feed.quiets_sent_other rfl).andThen fun _ ↦ .ret (Or.inr rfl)
    | outgoing => exact .ret (Or.inr rfl)

theorem background_announcements {s : Node} (g : MetalBondState → RouteTable)
    (hg : ∀ r k, k ∈ (g s.world.mb).sources r →
      k ∈ s.world.mb.myAnnouncements.sources r ∨ k = none) :
    (feed p subs first).Background s { s with
      world := s.world.modifyMb fun mb ↦ { mb with myAnnouncements := g mb } } :=
  ⟨[], fun h ↦ ⟨h.1.mono rfl rfl hg, h.2⟩, Iff.rfl, rfl, nofun, rfl⟩

theorem background_addAnnouncement (vni : Vni) (dest : Destination) (nh : NextHop) (s : Node) :
    (feed p subs first).Background s { s with world := addAnnouncement vni dest nh s.world } := by
  refine background_announcements (fun mb ↦ (mb.myAnnouncements.addNextHop vni dest nh none).2)
    fun r k hk ↦ ?_
  rw [RouteTable.sources_addNextHop] at hk
  split at hk
  · next heq =>
    subst heq
    exact (Finset.mem_insert.mp hk).symm
  · exact Or.inl hk

theorem background_removeAnnouncement (vni : Vni) (dest : Destination) (nh : NextHop) (s : Node) :
    (feed p subs first).Background s
      { s with world := (removeAnnouncement vni dest nh s.world).2 } := by
  unfold removeAnnouncement
  by_cases hmem : none ∈ s.world.mb.myAnnouncements.sources (vni, dest, nh)
  · rw [RouteTable.removeNextHop_of_mem hmem]
    let sources := (s.world.mb.myAnnouncements.sources (vni, dest, nh)).erase none
    refine background_announcements (fun mb ↦ mb.myAnnouncements.store (vni, dest, nh) sources)
      fun r k hk ↦ Or.inl ?_
    rw [RouteTable.sources_store] at hk
    split at hk
    · next heq =>
      subst heq
      exact Finset.mem_of_mem_erase hk
    · exact hk
  · obtain ⟨e, he⟩ := RouteTable.removeNextHop_of_notMem hmem
    rw [he]
    exact Std.Refl.refl s

theorem background_announceRoute (vni : Vni) (dest : Destination) (nh : NextHop) :
    Confined (feed p subs first).Background (announceRoute vni dest nh) :=
  confined_announceRoute (background_addAnnouncement vni dest nh) (Feed.background_send rfl)

theorem background_withdrawRoute (vni : Vni) (dest : Destination) (nh : NextHop) :
    Confined (feed p subs first).Background (withdrawRoute vni dest nh) :=
  confined_withdrawRoute (background_removeAnnouncement vni dest nh) (Feed.background_send rfl)

/-- At most the connection of another peer has changed. -/
structure Aside (p : Peer) (s s' : Node) : Prop where
  mb : s'.world.mb = s.world.mb
  cell : p.cellOf s' = p.cellOf s
  chan : s'.chan = s.chan

instance : Std.Refl (Aside p) := ⟨fun _ ↦ ⟨rfl, rfl, rfl⟩⟩

theorem background_aside (h : Aside p s s') : (feed p subs first).Background s s' := by
  refine ⟨[], ?_, ?_, ?_, nofun, h.chan⟩
  · intro hcalm
    refine ⟨hcalm.1.mono (by rw [h.mb]) (by rw [h.mb]) fun r k hk ↦ Or.inl ?_, ?_⟩
    · rwa [h.mb] at hk
    · rw [h.mb]
      exact hcalm.2
  · simp only [feed, Established, h.cell]
  · simp only [feed, received, h.cell]

section Connections

variable {q : Peer}

theorem aside_modifyCell (hq : q.id ≠ p.id) (f : PeerCell → PeerCell) (s : Node) :
    Aside p s { s with world := s.world.modifyCell q.id f } :=
  ⟨rfl, s.world.modifyCell_cell_of_ne hq.symm f, rfl⟩

theorem aside_processKeepalive (hq : q.id ≠ p.id) :
    Confined (Aside p) (q.processKeepalive ord) :=
  confined_processKeepalive ord q
    (fun _ ↦ .update fun s ↦ ⟨rfl, World.setCell_cell_of_ne s.world hq.symm _, rfl⟩)
    fun f ↦ .modify (aside_modifyCell hq f)

theorem background_writeOutgoing (q : Peer) :
    Confined (feed p subs first).Background q.writeOutgoing := by
  by_cases hq : q.id = p.id
  · have htake : q.takeOutgoing = p.takeOutgoing := by
      funext w
      simp only [takeOutgoing, hq]
    rw [writeOutgoing, htake]
    exact Feed.confined_writeOutgoing
  · refine .bind (.modify fun s ↦ background_aside ?_) fun _ ↦ .ret _
    unfold takeOutgoing
    split
    · exact Std.Refl.refl (r := Aside p) s
    · exact aside_modifyCell hq _ s

end Connections

/-- The connection's task handles a `KEEPALIVE`, and the distributor takes the next update.
Any other task is a call of the application, handles a `KEEPALIVE` of another connection or
writes a message to a peer. -/
inductive Work (p : Peer) {κ : Type} :
    Party κ → Option InternalUpdate → Code (Except Error Unit) → Prop
  | processKeepalive (ord : HashOrder) : Work p .link none (p.processKeepalive ord)
  | distribute (ord : HashOrder) (u : InternalUpdate) :
    Work p .distributor (some u) (distribute ord u)
  | announceRoute (k : κ) (vni : Vni) (dest : Destination) (nh : NextHop) :
    Work p (.other k) none (announceRoute vni dest nh)
  | withdrawRoute (k : κ) (vni : Vni) (dest : Destination) (nh : NextHop) :
    Work p (.other k) none (withdrawRoute vni dest nh)
  | otherKeepalive (k : κ) (q : Peer) (hq : q.id ≠ p.id) (ord : HashOrder) :
    Work p (.other k) none (q.processKeepalive ord)
  | writeOutgoing (k : κ) (q : Peer) : Work p (.other k) none q.writeOutgoing

variable {κ : Type}

theorem plays : (feed p subs first).Plays (Work p : Party κ → _ → _ → Prop) where
  link o t h := by
    cases h with
    | processKeepalive ord => exact ⟨rfl, fun l hl ↦ follows_processKeepalive ord hl⟩
  distributor o t h := by
    cases h with
    | distribute ord u => exact ⟨ord, u, rfl, rfl⟩
  other k o t h := by
    cases h with
    | announceRoute _ vni dest nh => exact ⟨rfl, background_announceRoute vni dest nh⟩
    | withdrawRoute _ vni dest nh => exact ⟨rfl, background_withdrawRoute vni dest nh⟩
    | otherKeepalive _ q hq ord =>
      exact ⟨rfl, (aside_processKeepalive ord hq).mono fun _ _ ↦ background_aside⟩
    | writeOutgoing _ q => exact ⟨rfl, background_writeOutgoing q⟩

abbrev announcementMonitor (first : Set Route) : Monitor Lock World InternalUpdate Ledger :=
  ledgerMonitor (·.myAnnouncements) first

theorem owes_addAnnouncement (h : Owes first [] (ledger (·.myAnnouncements) s)) (vni : Vni)
    (dest : Destination) (nh : NextHop) :
    Owes first [⟨.add, vni, dest, nh, none⟩]
      (ledger (·.myAnnouncements) { s with world := addAnnouncement vni dest nh s.world }) := by
  have hpresent := @RouteTable.present_addNextHop s.world.mb.myAnnouncements vni dest nh none
  exact @owes_table (·.myAnnouncements) first s ⟨addAnnouncement vni dest nh s.world, s.chan⟩ h rfl
    [⟨.add, vni, dest, nh, none⟩] hpresent

theorem logs_announceRoute (vni : Vni) (dest : Destination) (nh : NextHop) :
    Follows (announcementMonitor first).protocol (fun σ _ ↦ σ = none) (announceRoute vni dest nh)
      none := by
  let u : InternalUpdate := ⟨.add, vni, dest, nh, none⟩
  have hbody : ∀ v, (announcementMonitor first).Good v →
      Follows (announcementMonitor first).protocol (Settled (·.myAnnouncements) first)
        (do modify (addAnnouncement vni dest nh); sendOn u) (some v) := by
    intro v hv
    refine .bind (Monitor.follows_modify (Q := fun σ _ ↦ ∃ v, σ = some v ∧ Owes first [u] v)
      fun s hs ↦ ?_) ?_
    · obtain rfl : ledger (·.myAnnouncements) s = v := hs
      exact ⟨_, rfl, owes_addAnnouncement hv vni dest nh⟩
    · intro σ _ hex
      obtain ⟨v, rfl, hv⟩ := hex
      exact follows_sendOwed hv
  exact Monitor.follows_section hbody fun sent ↦ .ret rfl

theorem logs_withdrawRoute (vni : Vni) (dest : Destination) (nh : NextHop) :
    Follows (announcementMonitor first).protocol (fun σ _ ↦ σ = none) (withdrawRoute vni dest nh)
      none := by
  let u : InternalUpdate := ⟨.remove, vni, dest, nh, none⟩
  have hupdate : ∀ v, (announcementMonitor first).Good v → Follows (announcementMonitor first).protocol
      (fun σ n ↦ ∃ v, σ = some v ∧ Owes first (goneUpdates u n) v)
      (update (removeAnnouncement vni dest nh)) (some v) := by
    intro v hv
    refine Monitor.follows_update fun s hs ↦ ⟨_, rfl, ?_⟩
    obtain rfl : ledger (·.myAnnouncements) s = v := hs
    unfold removeAnnouncement
    cases hres : s.world.mb.myAnnouncements.removeNextHop vni dest nh none with
    | error e => exact hv
    | ok x => exact owes_removal hv hres rfl rfl
  refine Monitor.follows_enter.bind fun σ _ hσ ↦ ?_
  obtain ⟨v, rfl, hv⟩ := hσ
  refine (hupdate v hv).bind fun σ remaining hσ ↦ ?_
  obtain ⟨v', rfl, howes⟩ := hσ
  match remaining with
  | .ok 0 =>
    refine (follows_sendOwed howes).bind fun σ sent hσ ↦ ?_
    obtain ⟨v'', rfl, hgood⟩ := hσ
    exact (Monitor.follows_leave hgood).andThen fun _ ↦ .ret rfl
  | .ok (n + 1) => exact (Monitor.follows_leave howes).andThen fun _ ↦ .ret rfl
  | .error e => exact (Monitor.follows_leave howes).andThen fun _ ↦ .ret rfl

theorem logs_sendInitialSubscribes (vnis : List Vni) :
    Follows (announcementMonitor first).protocol (fun σ _ ↦ σ = none)
      (p.sendInitialSubscribes vnis) none := by
  induction vnis with
  | nil => exact .ret rfl
  | cons vni rest ih =>
    refine .andThen (quiet_sendMessage quiet_ledger (fun _ _ ↦ rfl) _) fun r ↦ ?_
    cases r with
    | ok _ => exact ih
    | error e => exact (quiet_ledger.modify fun _ ↦ rfl).andThen fun _ ↦ ih

theorem logs_sendInitialAnnouncements (routes : List Route) :
    Follows (announcementMonitor first).protocol (fun σ _ ↦ σ = none)
      (p.sendInitialAnnouncements routes) none := by
  induction routes with
  | nil => exact .ret rfl
  | cons r rest ih =>
    refine .andThen (quiet_sendMessage quiet_ledger (fun _ _ ↦ rfl) _) fun r ↦ ?_
    cases r with
    | ok _ => exact ih
    | error e => exact quiet_ledger.modify fun _ ↦ rfl

theorem logs_establish :
    Follows (announcementMonitor first).protocol (fun σ _ ↦ σ = none)
      (p.setState ord .established) none := by
  refine (quiet_ledger.acquires (by simp)).andThen fun _ ↦ ?_
  refine (quiet_ledger.gets _).andThen fun old ↦ ?_
  split
  · exact quiet_ledger.releases (by simp)
  · next hold =>
    refine (quiet_ledger.modify fun _ ↦ rfl).andThen fun _ ↦ ?_
    refine (quiet_ledger.releases (by simp)).andThen fun _ ↦ ?_
    rw [if_pos ⟨rfl, hold⟩]
    refine (quiet_ledger.reading (by simp) _).andThen fun localSubs ↦ ?_
    refine (logs_sendInitialSubscribes _).andThen fun _ ↦ ?_
    exact (quiet_ledger.reading (by simp) _).andThen fun anns ↦ logs_sendInitialAnnouncements _

theorem logs_processKeepalive :
    Follows (announcementMonitor first).protocol (fun σ _ ↦ σ = none) (p.processKeepalive ord)
      none := by
  have hestablish : Follows (announcementMonitor first).protocol (fun σ _ ↦ σ = none)
      (do p.setState ord .established; return .ok () : Code (Except Error Unit)) none :=
    (logs_establish ord).andThen fun _ ↦ .ret rfl
  refine (quiet_ledger.reading (by simp) _).andThen fun st ↦ ?_
  cases p.direction with
  | incoming =>
    by_cases hsent : st = .helloSent
    · simp only [hsent, if_true]
      exact hestablish
    · by_cases hst : st = .established
      · simp only [hst, if_true]
        exact (quiet_sendMessage quiet_ledger (fun _ _ ↦ rfl) _).andThen fun r ↦ .ret rfl
      · simp only [hsent, hst, if_false]
        exact .ret rfl
  | outgoing =>
    by_cases hreceived : st = .helloReceived
    · simp only [hreceived, if_true]
      exact hestablish
    · simp only [hreceived, if_false]
      split <;> exact .ret rfl

theorem Work.logs {i : Party κ} {o : Option InternalUpdate} {t : Code (Except Error Unit)}
    (h : Work p i o t) :
    Follows (announcementMonitor first).protocol (fun σ _ ↦ σ = none) t none := by
  cases h with
  | processKeepalive ord => exact logs_processKeepalive ord
  | distribute ord u => exact follows_distribute ord u
  | announceRoute _ vni dest nh => exact logs_announceRoute vni dest nh
  | withdrawRoute _ vni dest nh => exact logs_withdrawRoute vni dest nh
  | otherKeepalive _ q _ ord => exact logs_processKeepalive ord
  | writeOutgoing _ q =>
    refine (quiet_ledger.modify fun s ↦ ?_).andThen fun _ ↦ .ret rfl
    rw [ledger, (q.received_takeOutgoing s).2.mb]
    rfl

variable (p) in
def told (s : Node) : Set Route := replay ∅ (p.received s)

structure Begins {A : Type} (p : Peer) (c : Tasks A) : Prop extends Unused c where
  clientOf : ClientOf p c.shared
  connecting : ¬ Established p c.shared
  untold : told p c.shared = ∅

def Step [DecidableEq κ] (p : Peer) (c c' : Tasks (Party κ)) : Prop :=
  Pool.Step (Work p) c c' ∧ p.HasRoom c.shared

variable (p) in
def Receptive (s : Node) : Prop := Established p s ∧ p.HasRoom s

variable (p) in
def Adds (r : Route) (s s' : Node) : Prop := p.received s' = p.received s ++ [.add r]

section Conditions

variable (p : Peer) (t : Code (Except Error Unit)) (s s' : Node)

/-- The peer is not told that a route is gone while its own task is bound to tell it of the
route from the initial announcements. -/
def Timely : Prop :=
  ∀ r, p.received s' = p.received s ++ [.remove r] → ¬ Bound (Receptive p) (Adds p r) t

/-- The initial announcements are still to be read: the connection is not yet established, or
it is still open whether its own task is going to tell the peer of the route. -/
def Unread (r : Route) : Prop :=
  ¬ Established p s ∨ Able (Receptive p) (Adds p r) t ∧ ¬ Bound (Receptive p) (Adds p r) t

/-- An announcement is made or withdrawn only where the peer is a subscriber of the VNI, or
before the initial announcements are read. -/
def Informed : Prop :=
  ∀ r, ¬ (s'.world.mb.myAnnouncements.Has r ↔ s.world.mb.myAnnouncements.Has r) →
    Listed p s.world.mb.subscribers r.1 ∨ Unread p t s r

structure Careful : Prop where
  timely : Timely p t s s'
  informed : Informed p t s s'

end Conditions

theorem told_congr (h : p.received s' = p.received s) : told p s' = told p s := by
  rw [told, told, h]

theorem told_of_received {d : Change Route} (h : p.received s' = p.received s ++ [d]) :
    told p s' = d.apply (told p s) := by
  rw [told, h, replay_append]
  rfl

theorem idle_sending {rest : List Route} (h : (feed p subs first).link.Idle (.sending rest)) :
    rest = [] := by
  rcases h with h | h <;> cases h
  rfl

/-- What a peer that is no subscriber of the VNI knows of a route. -/
def Level (p : Peer) (r : Route) (s : Node) : LinkStage → Prop
  | .fresh | .entered | .looking => r ∉ told p s
  | .sending rest => r ∈ told p s ∨ r ∈ rest ↔ s.world.mb.myAnnouncements.Has r

theorem level_of_unsent {l : LinkStage} {r : Route} (hl : l.unsent = none) :
    Level p r s l ↔ r ∉ told p s := by
  cases l with
  | sending rest => cases hl
  | _ => exact .rfl

theorem Level.congr {l : LinkStage} {r : Route} (h : Level p r s l)
    (htold : r ∈ told p s' ↔ r ∈ told p s)
    (hkept : ∀ rest, l = .sending rest →
      (s'.world.mb.myAnnouncements.Has r ↔ s.world.mb.myAnnouncements.Has r)) :
    Level p r s' l := by
  cases l with
  | sending rest =>
    rw [Level, htold]
    exact Iff.trans h (hkept rest rfl).symm
  | _ => exact fun hr ↦ h (htold.mp hr)

theorem Level.effect {t : Code (Except Error Unit)} {l l' : LinkStage} {d d' : DistStage}
    {r : Route} (h : Level p r s l) (heffect : (feed p subs first).Effect t l d s l' d' s')
    (howed : ∀ u, d = .owing u → u.route ≠ r)
    (hkept : ∀ rest, l = .sending rest →
      (s'.world.mb.myAnnouncements.Has r ↔ s.world.mb.myAnnouncements.Has r)) :
    Level p r s' l' := by
  cases heffect with
  | publish hpub =>
    have htold : told p s' = told p s := told_congr hpub.received
    exact h.congr (by rw [htold]) hkept
  | link hbefore hafter _ => exact (level_of_unsent hafter).mpr ((level_of_unsent hbefore).mp h)
  | enter hreceived _ =>
    have htold : told p s' = told p s := told_congr hreceived
    rw [Level, htold]
    exact h
  | snapshot hrest _ =>
    have huntold : r ∉ told p s := h
    exact (or_iff_right huntold).trans ((hrest r).trans (true_and _).to_iff)
  | @send _ r' rest _ _ _ htells =>
    have htold : told p s' = insert r' (told p s) := told_of_received htells.received
    have hold : r ∈ told p s ∨ r ∈ r' :: rest ↔ s.world.mb.myAnnouncements.Has r := h
    rw [Level, htold, hkept _ rfl, ← hold, Set.mem_insert_iff, List.mem_cons]
    tauto
  | take hrecv => exact h.congr .rfl fun _ _ ↦ .rfl
  | owe _ => exact h
  | skip _ _ => exact h
  | @deliver _ u _ _ htells =>
    have hne : r ≠ u.route := (howed u rfl).symm
    have htold : told p s' = u.toChange.apply (told p s) := told_of_received htells.received
    refine h.congr ?_ hkept
    rw [htold, InternalUpdate.toChange]
    cases u.action with
    | add => exact Set.mem_insert_iff.trans (or_iff_right hne)
    | remove => exact Set.mem_sdiff_singleton.trans (and_iff_left hne)

theorem follower_eq {l : LinkStage} {d : DistStage} : ((feed p subs first).catchUp l d s).follower =
    told p s ∩ {r | Listed p subs r.1} := by
  have hfilter := @replay_filter _ ∅ (p.received s) (fun r ↦ Listed p subs r.1) _
  rw [Set.empty_inter] at hfilter
  exact hfilter

theorem owed_effect {t : Code (Except Error Unit)} {l l' : LinkStage} {d d' : DistStage}
    (heffect : (feed p subs first).Effect t l d s l' d' s') (hsubs : s.world.mb.subscribers = subs)
    (h : ∀ u, d = .owing u → Listed p subs u.vni) : ∀ u, d' = .owing u → Listed p subs u.vni := by
  cases heffect with
  | take => nofun
  | owe hlisted =>
    rintro u ⟨⟩
    exact hsubs ▸ hlisted
  | skip => nofun
  | deliver => nofun
  | _ => exact h

structure Following (p : Peer) (subs : HashMap Vni (Finset SocketAddr)) (first : Set Route)
    (l : LinkStage) (d : DistStage) (c : Tasks (Party κ)) : Prop where
  fed : (feed p subs first).Fed l d c
  sound : ((feed p subs first).catchUp l d c.shared).Sound
  owed : ∀ u, d = .owing u → Listed p subs u.vni
  level : ∀ r, ¬ Listed p subs r.1 → Level p r c.shared l

/-- What the initial announcements will not tell any more stays as it is. -/
theorem Following.has_iff {l : LinkStage} {d : DistStage} {c c' : Tasks (Party κ)}
    (h : Following p subs first l d c) (hroom : p.HasRoom c.shared)
    (hinformed : Informed p (c.code .link) c.shared c'.shared)
    {r : Route} (hunlisted : ¬ Listed p subs r.1) (rest : List Route) (hl : l = .sending rest) :
    c'.shared.world.mb.myAnnouncements.Has r ↔ c.shared.world.mb.myAnnouncements.Has r := by
  subst hl
  have hestablished : Established p c.shared := h.fed.entered.mpr nofun
  have hopen : (feed p subs first).Open c.shared := ⟨hestablished, hroom⟩
  by_contra hchanged
  rcases hinformed r hchanged with hlisted | hconnecting | ⟨hable, hfree⟩
  · exact hunlisted (h.fed.calm.2 ▸ hlisted)
  · exact hconnecting hestablished
  · have hmem : r ∈ rest := Feed.mem_of_able hopen h.fed.link hable
    exact hfree (Feed.bound_of_sending (fun _ _ ↦ idle_sending) hopen h.fed.link hmem)

theorem Following.step [DecidableEq κ] {l : LinkStage} {d : DistStage} {c c' : Tasks (Party κ)}
    (h : Following p subs first l d c) (hlogs : (announcementMonitor first).Sound c)
    (hstep : Step p c c') (hcareful : Careful p (c.code .link) c.shared c'.shared) :
    ∃ l' d', Following p subs first l' d' c' := by
  obtain ⟨l', d', heffect, hfed⟩ := h.fed.step plays hlogs hstep.2 hstep.1
  refine ⟨l', d', hfed, heffect.sound h.sound ?_ ?_, owed_effect heffect h.fed.calm.2 h.owed,
    fun r hr ↦ ?_⟩
  · intro ord u _ hunlisted _ hkept
    exact absurd (h.fed.calm.2.symm ▸ hkept) hunlisted
  · rintro rest r rfl hremove hr
    have hopen : (feed p subs first).Open c.shared := ⟨h.fed.entered.mpr nofun, hstep.2⟩
    have hbound := Feed.bound_of_sending (fun _ _ ↦ idle_sending) hopen h.fed.link hr
    exact hcareful.timely r hremove hbound
  · refine (h.level r hr).effect heffect (fun u hu hroute ↦ hr ?_)
      (h.has_iff hstep.2 hcareful.informed hr)
    exact hroute ▸ h.owed u hu

theorem following_of_begins {c : Tasks (Party κ)} (h : Begins p c) :
    Following p c.shared.world.mb.subscribers c.shared.world.mb.myAnnouncements.present .fresh
      .idle c where
  fed := Feed.fed_of_unused h.toUnused ⟨h.clientOf, rfl⟩ h.connecting
  sound := by
    refine Feed.sound_of_unused h.toUnused ?_
    rw [follower_eq, h.untold, Set.empty_inter]
  owed := nofun
  level r _ := by
    rw [Level, h.untold]
    exact Set.notMem_empty r

def Followed (p : Peer) (subs : HashMap Vni (Finset SocketAddr)) (first : Set Route)
    (c : Tasks (Party κ)) : Prop :=
  (announcementMonitor first).Sound c ∧ ∃ l d, Following p subs first l d c

/-- When every task has finished and the channel is drained, an established peer was told the
announcements of the node. -/
theorem told_eq_announcements [DecidableEq κ] {c c' : Tasks (Party κ)} (hbegins : Begins p c)
    (hrun : Run (fun c c' ↦ Step p c c' ∧ Careful p (c.code .link) c.shared c'.shared) c c')
    (hidle : ∀ i, c'.Idle i) (hdrained : c'.shared.chan.queue = [])
    (hestablished : Established p c'.shared) :
    told p c'.shared = {r | c'.shared.world.mb.myAnnouncements.Has r} := by
  let first := c.shared.world.mb.myAnnouncements.present
  let subs := c.shared.world.mb.subscribers
  have hinit : Followed p subs first c :=
    ⟨hbegins.toUnused.sound _, _, _, following_of_begins hbegins⟩
  obtain ⟨hlogs, l, d, h⟩ : Followed p subs first c' := by
    refine hrun.invariant hinit ?_
    rintro c c' ⟨hlogs, l, d, h⟩ ⟨hstep, hcareful⟩
    exact ⟨hlogs.step (fun _ _ _ ↦ Work.logs) hstep.1, h.step hlogs hstep hcareful⟩
  obtain rfl := h.fed.link_at_rest hidle hestablished
  have hfollower := h.fed.follower_eq h.sound hlogs hidle hdrained hestablished
  rw [follower_eq] at hfollower
  ext r
  by_cases hlisted : Listed p subs r.1
  · have hiff := Set.ext_iff.mp hfollower r
    exact (and_iff_left hlisted).symm.trans (hiff.trans (and_iff_right hlisted))
  · exact (or_iff_left List.not_mem_nil).symm.trans (h.level r hlisted)

abbrev Filling [DecidableEq κ] (p : Peer) (c c' : Tasks (Party κ)) : Prop :=
  Pool.Step (Work p) c c' ∧ Fills p c.shared c'.shared

def Announces (p : Peer) (s s' : Node) : Prop :=
  Fills p s s' ∧ s'.world.mb.myAnnouncements = s.world.mb.myAnnouncements

theorem acts_announces (q : Peer) : q.Acts (Announces p) := by
  refine (acts_fills q).and {
    refl := ⟨fun _ ↦ rfl⟩
    sent := fun s msg ↦ congrArg MetalBondState.myAnnouncements (q.alike_sent s msg).mb
    cell := fun _ _ _ ↦ rfl
    send := fun _ _ ↦ rfl
    update := fun s action vni dest nh ↦ ?_
    removeRoutes := fun _ _ ↦ rfl
    subscribe := fun _ _ ↦ rfl
    unsubscribe := fun s vni ↦ ?_
    forget := fun _ _ ↦ rfl }
  · rw [(tableOnly_applyUpdate s action vni dest nh (some q.remoteAddr)).mb_eq]
  · rw [mb_removeSubscriber]

instance : Std.Refl (Announces p) := (acts_announces p).refl

section Witness

variable {A : Type} [DecidableEq A] {c c' : Tasks A}
variable {Starts : A → Option InternalUpdate → Code (Except Error Unit) → Prop}

def Keeps (p : Peer) (s s' : Node) : Prop :=
  Established p s → s'.world.mb.myAnnouncements = s.world.mb.myAnnouncements

theorem careful_of_keeps (hrun : Run (fun c c' ↦ (Pool.Step Starts c c' ∧
      Keeps p c.shared c'.shared) ∧ Fills p c.shared c'.shared) c c')
    (hroom : p.HasRoom c'.shared) (hkept : ∀ r, .remove r ∉ p.received c'.shared) :
    Run (fun c c' ↦ Pool.Step Starts c c' ∧ p.HasRoom c.shared ∧
      ∀ t, Careful p t c.shared c'.shared) c c' := by
  refine (hrun.toward Pool.shared).mono fun d d' h ↦ ?_
  obtain ⟨⟨hstep, hkeeps⟩, hbefore, hafter⟩ := h
  refine ⟨hstep, hbefore.hasRoom hroom, fun t ↦ ⟨fun r hremove ↦ ?_, fun r hchanged ↦ ?_⟩⟩
  · exact (hafter.not_told (hkept r) hremove).elim
  · by_cases hup : Established p d.shared
    · exact absurd (by rw [hkeeps hup]) hchanged
    · exact .inr (.inl hup)

theorem keeps_of_announces
    (hrun : Run (fun c c' ↦ Pool.Step Starts c c' ∧ Announces p c.shared c'.shared) c c') :
    Run (fun c c' ↦ (Pool.Step Starts c c' ∧ Keeps p c.shared c'.shared) ∧
      Fills p c.shared c'.shared) c c' :=
  hrun.mono fun _ _ h ↦ ⟨⟨h.1, fun _ ↦ h.2.2⟩, h.2.1⟩

def Untouched (p : Peer) (s s' : Node) : Prop := p.cellOf s' = p.cellOf s

instance : Std.Refl (Untouched p) := ⟨fun _ ↦ rfl⟩

theorem keeps_of_connecting (hconnecting : ¬ Established p c.shared)
    (hrun : Run (fun c c' ↦ Pool.Step Starts c c' ∧ Untouched p c.shared c'.shared) c c') :
    Run (fun c c' ↦ (Pool.Step Starts c c' ∧ Keeps p c.shared c'.shared) ∧
      Fills p c.shared c'.shared) c c' := by
  let Down (d : Tasks A) : Prop := ¬ Established p d.shared
  have hdown : Down c := hconnecting
  have halong := hrun.along hdown fun d d' h hstep hup ↦
    h ((congrArg PeerCell.state hstep.2).symm.trans hup)
  refine halong.mono fun d d' h ↦ ?_
  obtain ⟨⟨hstep, hsame⟩, hdown⟩ := h
  exact ⟨⟨hstep, fun hup ↦ absurd hup hdown⟩, fills_of_tx (congrArg PeerCell.tx hsame)⟩

end Witness

end MetalBond.Announcements

namespace MetalBond

open Async Task Collections HashMap Peer Announcements

namespace Sample

def greetedNode (announced : RouteTable) : Node :=
  let p := peer 1 .outgoing
  let s := node false
  { s with world := (s.world.modifyMb fun mb ↦ { mb with
      peers := mb.peers.insert p.remoteAddr p
      myAnnouncements := announced }).modifyCell p.id fun c ↦ { c with state := .helloReceived } }

theorem begins_greetedNode {A : Type} {announced : RouteTable}
    (hown : ∀ r, ∀ k ∈ announced.sources r, k = none) :
    Begins (peer 1 .outgoing) (tasks A (greetedNode announced)) where
  toUnused := unused_tasks rfl rfl
  clientOf := {
    known := rfl
    unique := fun addr q h _ ↦ by
      by_contra haddr
      have hnone : (greetedNode announced).world.mb.peers.lookup addr = none :=
        (Finmap.lookup_insert_of_ne _ haddr).trans (Finmap.lookup_empty addr)
      cases hnone.symm.trans h
    client := rfl
    own := hown }
  connecting := nofun
  untold := rfl

def announced : RouteTable := (RouteTable.new.addNextHop 100 destination nextHop none).2

theorem mem_sources_announced {r : Route} {k : PeerKey} :
    k ∈ announced.sources r ↔ r = route ∧ k = none := by
  rw [announced, RouteTable.sources_addNextHop]
  by_cases hr : r = (100, destination, nextHop)
  · simp [hr, route]
  · simp [hr, route]

theorem announcementList_announced (ord : HashOrder) :
    announcementList ord announced.getLocalAnnouncements = [route] := by
  have hmem : ∀ r, r ∈ announcementList ord announced.getLocalAnnouncements ↔ r ∈ [route] := by
    intro r
    rw [mem_announcementList, mem_sources_announced, List.mem_singleton, and_iff_left rfl]
  have hnd := nodup_announcementList ord announced.getLocalAnnouncements
  exact List.perm_singleton.mp ((List.perm_ext_iff_of_nodup hnd (List.nodup_singleton _)).mpr hmem)

theorem exec_keepalive_announced (ord : HashOrder) (ch : Channel InternalUpdate) : ∃ s,
    exec [] ((peer 1 .outgoing).processKeepalive ord) { greetedNode announced with chan := ch } =
        .done (.ok ()) [] s ∧
      ((peer 1 .outgoing).cellOf s).tx.history = [.update (update .add)] ∧
      (peer 1 .outgoing).HasRoom s ∧ s.world.mb = (greetedNode announced).world.mb ∧
      s.chan = ch ∧ Established (peer 1 .outgoing) s := by
  let before : Node := { greetedNode announced with chan := ch }
  let c := { (peer 1 .outgoing).cellOf (greetedNode announced) with state := .established }
  obtain ⟨tx, hsend, htx⟩ := @PeerCell.sendRoutes_of_room c [route] rfl (by decide)
  have hsynced : synced ord before c = { c with tx := tx } := by
    have hlist : announcementList ord before.world.mb.myAnnouncements.getLocalAnnouncements =
        [route] := announcementList_announced ord
    have hsubs : ord.list before.world.mb.mySubscriptions = [] := ord.list_empty
    rw [synced, hlist, hsubs]
    exact congrArg Prod.snd hsend
  have hon : (peer 1 .outgoing).onKeepalive ord before ((peer 1 .outgoing).cellOf before) =
      (.ok (), { c with tx := tx }) := by
    rw [← hsynced]
    rfl
  rw [exec_processKeepalive, hon]
  refine ⟨_, rfl, ?_, ⟨?_, ?_⟩, rfl, rfl, ?_⟩
  · rw [cellOf_withCell, htx]
    rfl
  · rw [cellOf_withCell, htx]
    rfl
  · rw [cellOf_withCell, htx]
    decide
  · rw [Established, cellOf_withCell]

def announcement : InternalUpdate := ⟨.add, 100, destination, nextHop, none⟩

/-- The application announces a route, then the connection is established, then the distributor
takes the update. -/
theorem announced_first {A : Type} [DecidableEq A]
    {Starts : A → Option InternalUpdate → Code (Except Error Unit) → Prop}
    (call link distributor : A)
    (hcall : Starts call none (announceRoute 100 destination nextHop))
    (hlink : Starts link none ((peer 1 .outgoing).processKeepalive default))
    (hdistributor : Starts distributor (some announcement) (distribute default announcement)) :
    ∃ c c' : Tasks A, Begins (peer 1 .outgoing) c ∧
      Run (fun c c' ↦ Pool.Step Starts c c' ∧ (peer 1 .outgoing).HasRoom c.shared ∧
        ∀ t, Careful (peer 1 .outgoing) t c.shared c'.shared) c c' ∧
      (∀ a, c'.Idle a) ∧ c'.shared.chan.queue = [] ∧ Established (peer 1 .outgoing) c'.shared ∧
      ((peer 1 .outgoing).cellOf c'.shared).tx.history = [.update (update .add)] ∧
      c'.shared.world.mb.myAnnouncements = announced := by
  let p := peer 1 .outgoing
  let queued : Node := { greetedNode announced with chan := ⟨[], [announcement], false⟩ }
  let c := tasks A (greetedNode .new)
  let c₁ := c.set call ⟨[], .ret (.ok ())⟩ queued
  have hheld₁ : ∀ i, c₁.held i = [] := Pool.unguarded_set (fun _ ↦ rfl) _ _ _
  have hidle₁ : ∀ i, c₁.Idle i :=
    Pool.forall_code_set (Q := fun t ↦ ∃ a, t = .ret a) (fun _ ↦ ⟨_, rfl⟩) ⟨_, rfl⟩ call queued
  have hannounce : Run (fun c c' ↦ Pool.Step Starts c c' ∧ Untouched p c.shared c'.shared) c c₁ :=
    Pool.run_start (fun _ ↦ rfl) (idle_tasks ..) hcall
      (confined_announceRoute (fun _ ↦ rfl) fun _ ↦ rfl) rfl
  obtain ⟨s, hexec, hhistory, hroom, hmb, hchan, hup⟩ :=
    exec_keepalive_announced default ⟨[], [announcement], false⟩
  let c₂ := c₁.set link ⟨[], .ret (.ok ())⟩ s
  have hheld₂ : ∀ i, c₂.held i = [] := Pool.unguarded_set hheld₁ _ _ _
  have hidle₂ : ∀ i, c₂.Idle i :=
    Pool.forall_code_set (Q := fun t ↦ ∃ a, t = .ret a) hidle₁ ⟨_, rfl⟩ link s
  have hkeepalive : Run (fun c c' ↦ Pool.Step Starts c c' ∧ Announces p c.shared c'.shared)
      c₁ c₂ := Pool.run_start hheld₁ (hidle₁ link) hlink
    ((acts_announces p).composes.processKeepalive default) hexec
  let taken : Node := { s with chan := ⟨[announcement], [], false⟩ }
  let s' : Node := { taken with world := { taken.world with
    client := (taken.world.client.call (clientCall announcement)).2 } }
  let c₃ := c₂.set distributor ⟨[], .ret (.ok ())⟩ s'
  have hidle₃ : ∀ i, c₃.Idle i :=
    Pool.forall_code_set (Q := fun t ↦ ∃ a, t = .ret a) hidle₂ ⟨_, rfl⟩ distributor s'
  have hforward : exec [] (distribute default announcement) taken = .done (.ok ()) [] s' := by
    refine exec_distribute_unlisted default taken ?_
    rw [hmb]
    rfl
  have hrecv : c₂.shared.chan.recv = some (announcement, ⟨[announcement], [], false⟩) := by
    rw [Pool.shared_set, hchan]
    rfl
  have hdistribute : Run (fun c c' ↦ Pool.Step Starts c c' ∧ Announces p c.shared c'.shared)
      c₂ c₃ := Pool.run_receive hheld₂ (hidle₂ distributor) hrecv hdistributor
    ⟨fills_of_tx rfl, rfl⟩ (confined_distribute (R := Announces p) (fun _ ↦ ⟨fills_of_tx rfl, rfl⟩)
      (fun q s msg ↦ (acts_announces q).sent s msg) default) hforward
  have hrun := (@keeps_of_connecting p A _ c c₁ Starts nofun hannounce).trans
    ((keeps_of_announces hkeepalive).trans (keeps_of_announces hdistribute))
  have hkept : ∀ r, .remove r ∉ p.received s := by
    intro r hr
    rw [received, hhistory] at hr
    cases List.mem_singleton.mp hr
  refine ⟨c, c₃, begins_greetedNode (by simp), careful_of_keeps hrun ⟨hroom.1, hroom.2⟩ hkept,
    hidle₃, rfl, hup, hhistory, congrArg MetalBondState.myAnnouncements hmb⟩

def upNode : Node :=
  (peer 1 .outgoing).withCell (greetedNode .new)
    { (peer 1 .outgoing).cellOf (greetedNode .new) with state := .established }

theorem exec_keepalive_greeted (ord : HashOrder) :
    exec [] ((peer 1 .outgoing).processKeepalive ord) (greetedNode .new) =
      .done (.ok ()) [] upNode := by
  have hsynced := @synced_empty ord (greetedNode .new) rfl rfl
    { (peer 1 .outgoing).cellOf (greetedNode .new) with state := .established }
  have hon : (peer 1 .outgoing).onKeepalive ord (greetedNode .new)
      ((peer 1 .outgoing).cellOf (greetedNode .new)) =
      (.ok (), { (peer 1 .outgoing).cellOf (greetedNode .new) with state := .established }) := by
    rw [← hsynced]
    rfl
  rw [exec_processKeepalive, hon]
  rfl

def announcedNode : Node := (exec [] (announceRoute 100 destination nextHop) upNode).shared

theorem exec_distribute_announcement (ord : HashOrder) : ∃ s,
    exec [] (distribute ord announcement)
        { announcedNode with chan := ⟨[announcement], [], false⟩ } = .done (.ok ()) [] s ∧
      (peer 1 .outgoing).received s = [] ∧ (peer 1 .outgoing).HasRoom s ∧
      s.world.mb = announcedNode.world.mb ∧ s.chan.queue = [] ∧
      Established (peer 1 .outgoing) s :=
  ⟨_, exec_distribute_unlisted ord _ rfl, rfl, ⟨rfl, by decide⟩, rfl, rfl, rfl⟩

end Sample

theorem Announcements.told_eq_announcements_sample : ∃ s : Node,
    Established (Sample.peer 1 .outgoing) s ∧ Sample.route ∈ told (Sample.peer 1 .outgoing) s ∧
      told (Sample.peer 1 .outgoing) s = {r | s.world.mb.myAnnouncements.Has r} := by
  obtain ⟨c, c', hbegins, hrun, hidle, hdrained, hup, hhistory, -⟩ :=
    Sample.announced_first (Party.other ()) .link .distributor
      (Work.announceRoute () 100 Sample.destination Sample.nextHop) (Work.processKeepalive default)
      (Work.distribute default Sample.announcement)
  have hcareful : Run (fun c c' ↦ Step (Sample.peer 1 .outgoing) c c' ∧
      Careful (Sample.peer 1 .outgoing) (c.code .link) c.shared c'.shared) c c' :=
    hrun.mono fun _ _ h ↦ ⟨⟨h.1, h.2.1⟩, h.2.2 _⟩
  refine ⟨c'.shared, hup, ?_, told_eq_announcements hbegins hcareful hidle hdrained hup⟩
  rw [told, received, hhistory]
  exact Set.mem_insert _ _

/-- The route is announced when the connection is established, and the peer is no subscriber. -/
theorem Announcements.late_announcement_lost : ¬ ∀ c c' : Tasks (Party Unit),
    Begins (Sample.peer 1 .outgoing) c → Run (Step (Sample.peer 1 .outgoing)) c c' →
      (∀ i, c'.Idle i) → c'.shared.chan.queue = [] →
      Established (Sample.peer 1 .outgoing) c'.shared →
      told (Sample.peer 1 .outgoing) c'.shared =
        {r | c'.shared.world.mb.myAnnouncements.Has r} := by
  intro hevery
  let p := Sample.peer 1 .outgoing
  let c := Sample.tasks (Party Unit) (Sample.greetedNode .new)
  let c₁ := c.set .link ⟨[], .ret (.ok ())⟩ Sample.upNode
  have hestablish : Run (Filling p) c c₁ :=
    Pool.run_start (fun _ ↦ rfl) ⟨_, rfl⟩ (Work.processKeepalive default)
      ((acts_fills _).composes.processKeepalive _) (Sample.exec_keepalive_greeted default)
  have hheld₁ : ∀ i, c₁.held i = [] := Pool.unguarded_set (fun _ ↦ rfl) _ _ _
  let c₂ := c₁.set (.other ()) ⟨[], .ret (.ok ())⟩ Sample.announcedNode
  have hannounce : Run (Filling p) c₁ c₂ :=
    Pool.run_start hheld₁ ⟨_, rfl⟩ (Work.announceRoute () 100 Sample.destination Sample.nextHop)
      (fills_announceRoute ..) rfl
  have hheld₂ : ∀ i, c₂.held i = [] := Pool.unguarded_set hheld₁ _ _ _
  obtain ⟨s₃, hforward, htold₃, hroom₃, hmb₃, hqueue₃, hup₃⟩ :=
    Sample.exec_distribute_announcement default
  let c₃ := c₂.set .distributor ⟨[], .ret (.ok ())⟩ s₃
  have hdistribute : Run (Filling p) c₂ c₃ :=
    Pool.run_receive hheld₂ ⟨_, rfl⟩ rfl (Work.distribute default Sample.announcement)
      (fills_of_tx rfl) (fills_distribute ..) hforward
  have hrun := hestablish.trans (hannounce.trans hdistribute)
  have hidle : ∀ i, c₃.Idle i := by
    rintro (_ | _ | _) <;> exact ⟨_, rfl⟩
  have hbegins := @Sample.begins_greetedNode (Party Unit) .new (by simp)
  have htold := hevery c c₃ hbegins (run_hasRoom Pool.shared hrun hroom₃) hidle hqueue₃ hup₃
  have hmem : Sample.route ∈ told p s₃ := by
    rw [Pool.shared_set] at htold
    rw [htold, Set.mem_ofPred_eq, hmb₃]
    decide
  rw [told, htold₃] at hmem
  exact hmem

end MetalBond
