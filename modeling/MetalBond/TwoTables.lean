import MetalBond.Announcements
import MetalBond.Async.Lapse
import MetalBond.Deliveries
import MetalBond.UpdateLog

namespace MetalBond

open Async Task Collections HashMap Peer

namespace RouteTable

variable {t t' : RouteTable} {vni : Vni} {dest : Destination} {nh : NextHop} {k : PeerKey} {n : ℕ}

theorem lost_removeNextHop {r : Route} (h : t.removeNextHop vni dest nh k = .ok (n, t'))
    (hr : t.Has r) (hr' : ¬ t'.Has r) : n = 0 ∧ r = (vni, dest, nh) ∧ t.sources r = {k} := by
  have hpresent := present_removeNextHop h
  have hold : r ∈ t.present := hr
  have hnew : r ∉ t'.present := hr'
  by_cases hn : n = 0
  · rw [hpresent, if_pos hn] at hnew
    have hroute : r = (vni, dest, nh) := by
      by_contra hne
      exact hnew ⟨hold, hne⟩
    refine ⟨hn, hroute, ?_⟩
    by_cases hmem : k ∈ t.sources (vni, dest, nh)
    · rw [removeNextHop_of_mem hmem, hn] at h
      have hcard : ((t.sources (vni, dest, nh)).erase k).card = 0 := congrArg (·.1) (Except.ok.inj h)
      rw [hroute, ← Finset.insert_erase hmem, Finset.card_eq_zero.mp hcard]
      rfl
    · obtain ⟨e, he⟩ := removeNextHop_of_notMem hmem
      cases he.symm.trans h
  · rw [hpresent, if_neg hn] at hnew
    exact absurd hold hnew

theorem loses_of_removed (h : t.removeNextHop vni dest nh k = .ok (0, t')) :
    t.Has (vni, dest, nh) ∧ ¬ t'.Has (vni, dest, nh) := by
  have hmem : k ∈ t.sources (vni, dest, nh) := by
    by_contra hmem
    obtain ⟨e, he⟩ := removeNextHop_of_notMem hmem
    cases he.symm.trans h
  have hpresent := present_removeNextHop h
  rw [if_pos rfl] at hpresent
  refine ⟨has_of_mem hmem, fun hhas ↦ ?_⟩
  have hin : (vni, dest, nh) ∈ t'.present := hhas
  rw [hpresent] at hin
  exact hin.2 rfl

end RouteTable

namespace TwoTables

def either (s : Node) : Set Route :=
  s.world.mb.myAnnouncements.present ∪ s.world.mb.routeTable.present

/-- The calls of the application and the `UPDATE`s of the peers, in any order and number; the
remaining task, `none`, is the distributor. -/
inductive Work {κ : Type} : Option κ → Option InternalUpdate → Code (Except Error Unit) → Prop
  | announceRoute (k : κ) (vni : Vni) (dest : Destination) (nh : NextHop) :
    Work (some k) none (announceRoute vni dest nh)
  | withdrawRoute (k : κ) (vni : Vni) (dest : Destination) (nh : NextHop) :
    Work (some k) none (withdrawRoute vni dest nh)
  | processUpdate (k : κ) (peer : Peer) (msg : Pb.Update) :
    Work (some k) none (peer.processUpdate msg)
  | distribute (ord : HashOrder) (u : InternalUpdate) : Work none (some u) (distribute ord u)

variable {κ : Type}

def Withdraws (c : Tasks (Option κ)) (r : Route) : Prop :=
  c.shared.world.mb.myAnnouncements.sources r = {none} ∧ ∃ i k,
    c.code i = .act (fun w ↦ (removeAnnouncement r.1 r.2.1 r.2.2 w).2) k

def Forgets (c : Tasks (Option κ)) (r : Route) : Prop :=
  ∃ source, c.shared.world.mb.routeTable.sources r = {source} ∧ ∃ i k,
    c.code i = .act (fun w ↦ (applyUpdate .remove r.1 r.2.1 r.2.2 source w).2) k

/-- No route is about to go from one of the tables while the other has it. -/
def Careful (c : Tasks (Option κ)) : Prop :=
  ∀ r, (Withdraws c r → ¬ c.shared.world.mb.routeTable.Has r) ∧
    (Forgets c r → ¬ c.shared.world.mb.myAnnouncements.Has r)

structure Begins (c : Tasks (Option κ)) : Prop extends Unused c where
  announced : c.shared.world.mb.myAnnouncements = RouteTable.new
  learned : c.shared.world.mb.routeTable = RouteTable.new

def Keeps (s s' : Node) : Prop :=
  s.world.mb.myAnnouncements.present ⊆ s'.world.mb.myAnnouncements.present ∧
    s.world.mb.routeTable.present ⊆ s'.world.mb.routeTable.present

instance : Std.Refl Keeps := ⟨fun _ ↦ ⟨subset_rfl, subset_rfl⟩⟩

theorem keeps_of_mb {s s' : Node} (h : s'.world.mb = s.world.mb) : Keeps s s' := by
  rw [Keeps, h]
  exact ⟨subset_rfl, subset_rfl⟩

inductive Takes : (World → World) → Prop
  | announced (vni : Vni) (dest : Destination) (nh : NextHop) :
    Takes fun w ↦ (removeAnnouncement vni dest nh w).2
  | learned (action : UpdateAction) (vni : Vni) (dest : Destination) (nh : NextHop)
    (source : PeerKey) : Takes fun w ↦ (applyUpdate action vni dest nh source w).2

theorem confinedBut_announceRoute (vni : Vni) (dest : Destination) (nh : NextHop) :
    ConfinedBut Takes Keeps (announceRoute vni dest nh) := by
  have hadd : ∀ s : Node, Keeps s { s with world := addAnnouncement vni dest nh s.world } := by
    intro s
    refine ⟨?_, subset_rfl⟩
    rw [addAnnouncement, World.modifyMb_mb, RouteTable.present_addNextHop]
    exact Set.subset_insert _ _
  exact .of_confined (confined_announceRoute hadd fun _ ↦ keeps_of_mb rfl)

theorem confinedBut_withdrawRoute (vni : Vni) (dest : Destination) (nh : NextHop) :
    ConfinedBut Takes Keeps (withdrawRoute vni dest nh) := by
  refine .bind (.of_confined (.acquire ..)) fun _ ↦ .bind (.update (.announced ..)) fun remaining ↦ ?_
  match remaining with
  | .ok 0 =>
    exact .of_confined (.bind (.sendOn fun _ ↦ keeps_of_mb rfl) fun sent ↦
      .bind (.release ..) fun _ ↦ .ret _)
  | .ok (n + 1) => exact .of_confined (.bind (.release ..) fun _ ↦ .ret _)
  | .error e => exact .of_confined (.bind (.release ..) fun _ ↦ .ret _)

theorem confinedBut_processUpdate (peer : Peer) (msg : Pb.Update) :
    ConfinedBut Takes Keeps (peer.processUpdate msg) := by
  unfold processUpdate
  split
  · exact .of_confined (.ret _)
  · refine .bind (.of_confined (.reading ..)) fun isSubscribedLocally ↦ ?_
    split
    · exact .of_confined (.ret _)
    · refine .bind (.of_confined (.acquire ..)) fun _ ↦ .bind (.update (.learned ..)) fun remaining ↦ ?_
      refine .bind (.of_confined ?_) fun _ ↦ .of_confined (.bind (.release ..) fun _ ↦ .ret _)
      exact confined_sendChange (fun _ _ ↦ keeps_of_mb rfl) _ remaining

theorem Work.confinedBut {i : Option κ} {o : Option InternalUpdate} {t : Code (Except Error Unit)}
    (h : Work i o t) : ConfinedBut Takes Keeps t := by
  cases h with
  | announceRoute k vni dest nh => exact confinedBut_announceRoute vni dest nh
  | withdrawRoute k vni dest nh => exact confinedBut_withdrawRoute vni dest nh
  | processUpdate k peer msg => exact confinedBut_processUpdate peer msg
  | distribute ord u =>
    exact .of_confined (confined_distribute (R := Keeps) (fun _ ↦ keeps_of_mb rfl)
      (fun _ _ _ ↦ keeps_of_mb rfl) ord)

/-- The last source of a route has gone from one of the tables, while the other has the
route. -/
def Lapse (s s' : Node) : Prop :=
  ∃ r, s.world.mb.myAnnouncements.Has r ∧ s.world.mb.routeTable.Has r ∧
    (¬ s'.world.mb.myAnnouncements.Has r ∨ ¬ s'.world.mb.routeTable.Has r)

theorem routeTable_removeAnnouncement (vni : Vni) (dest : Destination) (nh : NextHop) (w : World) :
    (removeAnnouncement vni dest nh w).2.mb.routeTable = w.mb.routeTable := by
  unfold removeAnnouncement
  split <;> rfl

theorem myAnnouncements_applyUpdate (action : UpdateAction) (vni : Vni) (dest : Destination)
    (nh : NextHop) (source : PeerKey) (w : World) :
    (applyUpdate action vni dest nh source w).2.mb.myAnnouncements = w.mb.myAnnouncements := by
  cases action with
  | add => rfl
  | remove =>
    simp only [applyUpdate, removeNextHop]
    split <;> rfl

theorem withdraws_of_lost {s : Node} {vni : Vni} {dest : Destination} {nh : NextHop} {r : Route}
    (hr : s.world.mb.myAnnouncements.Has r)
    (hr' : ¬ (removeAnnouncement vni dest nh s.world).2.mb.myAnnouncements.Has r) :
    r = (vni, dest, nh) ∧ s.world.mb.myAnnouncements.sources r = {none} := by
  unfold removeAnnouncement at hr'
  cases hres : s.world.mb.myAnnouncements.removeNextHop vni dest nh none with
  | error e =>
    rw [hres] at hr'
    exact absurd hr hr'
  | ok x =>
    rw [hres] at hr'
    exact (RouteTable.lost_removeNextHop hres hr hr').2

theorem forgets_of_lost {s : Node} {action : UpdateAction} {vni : Vni} {dest : Destination}
    {nh : NextHop} {source : PeerKey} {r : Route} (hr : s.world.mb.routeTable.Has r)
    (hr' : ¬ (applyUpdate action vni dest nh source s.world).2.mb.routeTable.Has r) :
    action = .remove ∧ r = (vni, dest, nh) ∧ s.world.mb.routeTable.sources r = {source} := by
  cases action with
  | add =>
    have hin : r ∈ (applyUpdate .add vni dest nh source s.world).2.mb.routeTable.present := by
      simp only [applyUpdate, addNextHop, World.modifyMb_mb, RouteTable.present_addNextHop]
      exact Set.mem_insert_of_mem _ hr
    exact absurd hin hr'
  | remove =>
    refine ⟨rfl, ?_⟩
    simp only [applyUpdate, removeNextHop] at hr'
    cases hres : s.world.mb.routeTable.removeNextHop vni dest nh source with
    | error e =>
      rw [hres] at hr'
      exact absurd hr hr'
    | ok x =>
      rw [hres] at hr'
      exact (RouteTable.lost_removeNextHop hres hr hr').2

section Steps

variable [DecidableEq κ] {c c' : Tasks (Option κ)}

def Tame (c : Tasks (Option κ)) : Prop := ∀ i, ConfinedBut Takes Keeps (c.code i)

theorem Tame.step (h : Tame c) (hstep : Pool.Step Work c c') (hcareful : Careful c) :
    Tame c' ∧ ¬ Lapse c.shared c'.shared := by
  obtain ⟨hact, htame⟩ := hstep.confinedBut h (fun _ _ _ ↦ Work.confinedBut)
    fun _ _ ↦ keeps_of_mb rfl
  refine ⟨htame, ?_⟩
  intro hex
  obtain ⟨r, hannounced, hlearned, hlost⟩ := hex
  rcases hact with hkeeps | ⟨i, f, k, hcode, htakes, hshared⟩
  · rcases hlost with hlost | hlost
    · exact hlost (hkeeps.1 hannounced)
    · exact hlost (hkeeps.2 hlearned)
  · rw [hshared] at hlost
    cases htakes with
    | announced vni dest nh =>
      rw [routeTable_removeAnnouncement] at hlost
      have hlost' := hlost.resolve_right (not_not_intro hlearned)
      obtain ⟨rfl, hsources⟩ := withdraws_of_lost hannounced hlost'
      exact (hcareful (vni, dest, nh)).1 ⟨hsources, i, k, hcode⟩ hlearned
    | learned action vni dest nh source =>
      rw [myAnnouncements_applyUpdate] at hlost
      have hlost' := hlost.resolve_left (not_not_intro hannounced)
      obtain ⟨rfl, rfl, hsources⟩ := forgets_of_lost hlearned hlost'
      exact (hcareful (vni, dest, nh)).2 ⟨source, hsources, i, k, hcode⟩ hannounced

end Steps

structure Shown where
  routes : Set Route
  history : List InternalUpdate
  closed : Bool

def shown (s : Node) : Shown := ⟨either s, s.chan.history, s.chan.closed⟩

theorem shown_congr {s s' : Node} (hmb : s'.world.mb = s.world.mb) (hchan : s'.chan = s.chan) :
    shown s' = shown s := by
  simp only [shown, either, hmb, hchan]

def Lacks (missing : List InternalUpdate) (v : Shown) : Prop :=
  v.closed = false ∧
    replay (replay ∅ (v.history.map InternalUpdate.toChange)) (missing.map InternalUpdate.toChange) =
      v.routes

def monitor : Monitor Lock World InternalUpdate Shown where
  lock := .metalbondState
  view := shown
  Good := Lacks []
  view_recv hrecv := by
    simp only [shown, either, Channel.history_recv hrecv, Channel.closed_recv hrecv]

theorem lacks_send {u : InternalUpdate} {s : Node} (h : Lacks [u] (shown s)) :
    Lacks [] (shown { s with chan := (s.chan.send u).2 }) := by
  obtain ⟨hopen, hlog⟩ := h
  have hclosed : s.chan.closed = false := hopen
  refine ⟨?_, ?_⟩
  · simp [shown, Channel.send_of_open hclosed, hclosed]
  · simpa [shown, either, Channel.send_of_open hclosed] using hlog

theorem lacks_changed {us : List InternalUpdate} {s s' : Node} (h : Lacks [] (shown s))
    (hchan : s'.chan = s.chan)
    (hroutes : either s' = replay (either s) (us.map InternalUpdate.toChange)) :
    Lacks us (shown s') := by
  obtain ⟨hopen, hlog⟩ := h
  have hlog' : replay ∅ (s.chan.history.map InternalUpdate.toChange) = either s := hlog
  refine ⟨?_, ?_⟩
  · rw [← hopen, shown, hchan]
    rfl
  · rw [shown, hchan, hlog', hroutes]

theorem either_announced {us : List InternalUpdate} {s s' : Node}
    (ht : s'.world.mb.routeTable = s.world.mb.routeTable)
    (ha : s'.world.mb.myAnnouncements.present =
      replay s.world.mb.myAnnouncements.present (us.map InternalUpdate.toChange))
    (hkept : ∀ r, .remove r ∈ us.map InternalUpdate.toChange → r ∉ s.world.mb.routeTable.present) :
    either s' = replay (either s) (us.map InternalUpdate.toChange) := by
  rw [either, either, Set.union_comm, ht, ha, Set.union_comm s.world.mb.myAnnouncements.present,
    replay_union_of_kept hkept]

theorem either_learned {us : List InternalUpdate} {s s' : Node}
    (ha : s'.world.mb.myAnnouncements = s.world.mb.myAnnouncements)
    (ht : s'.world.mb.routeTable.present =
      replay s.world.mb.routeTable.present (us.map InternalUpdate.toChange))
    (hkept : ∀ r, .remove r ∈ us.map InternalUpdate.toChange →
      r ∉ s.world.mb.myAnnouncements.present) :
    either s' = replay (either s) (us.map InternalUpdate.toChange) := by
  rw [either, either, ha, ht, replay_union_of_kept hkept]

theorem lacks_addAnnouncement {s : Node} (h : Lacks [] (shown s)) (vni : Vni) (dest : Destination)
    (nh : NextHop) : Lacks [⟨.add, vni, dest, nh, none⟩]
      (shown { s with world := addAnnouncement vni dest nh s.world }) := by
  have hpresent := @RouteTable.present_addNextHop s.world.mb.myAnnouncements vni dest nh none
  refine lacks_changed h rfl (either_announced rfl hpresent ?_)
  intro r hr
  rw [List.map_singleton, List.mem_singleton] at hr
  cases hr

theorem present_removeAnnouncement (vni : Vni) (dest : Destination) (nh : NextHop) (w : World) :
    (removeAnnouncement vni dest nh w).2.mb.myAnnouncements.present =
      replay w.mb.myAnnouncements.present ((goneUpdates ⟨.remove, vni, dest, nh, none⟩
        (removeAnnouncement vni dest nh w).1).map InternalUpdate.toChange) := by
  unfold removeAnnouncement
  cases hres : w.mb.myAnnouncements.removeNextHop vni dest nh none with
  | error e => rfl
  | ok x =>
    obtain ⟨n, t⟩ := x
    have hpresent := RouteTable.present_removeNextHop hres
    cases n <;> exact hpresent

theorem of_mem_goneUpdates {u : InternalUpdate} {res : Except Error ℕ} {r : Route}
    (h : .remove r ∈ (goneUpdates u res).map InternalUpdate.toChange) :
    res = .ok 0 ∧ u.toChange = .remove r := by
  match res with
  | .ok 0 =>
    rw [goneUpdates, List.map_singleton, List.mem_singleton] at h
    exact ⟨rfl, h.symm⟩
  | .ok (n + 1) => cases h
  | .error e => cases h

theorem lacks_removeAnnouncement {s : Node} (h : Lacks [] (shown s)) {vni : Vni}
    {dest : Destination} {nh : NextHop}
    (hfine : ¬ Lapse s { s with world := (removeAnnouncement vni dest nh s.world).2 }) :
    Lacks (goneUpdates ⟨.remove, vni, dest, nh, none⟩ (removeAnnouncement vni dest nh s.world).1)
      (shown { s with world := (removeAnnouncement vni dest nh s.world).2 }) := by
  refine lacks_changed h rfl (either_announced (routeTable_removeAnnouncement ..)
    (present_removeAnnouncement ..) fun r hr hlearned ↦ hfine ?_)
  obtain ⟨hzero, hu⟩ := of_mem_goneUpdates hr
  cases hu
  unfold removeAnnouncement at hzero
  cases hres : s.world.mb.myAnnouncements.removeNextHop vni dest nh none with
  | error e =>
    rw [hres] at hzero
    cases hzero
  | ok x =>
    obtain ⟨n, t⟩ := x
    rw [hres] at hzero
    cases hzero
    obtain ⟨hhas, hlost⟩ := RouteTable.loses_of_removed hres
    refine ⟨_, hhas, hlearned, .inl ?_⟩
    unfold removeAnnouncement
    rw [hres]
    exact hlost

theorem of_mem_changeUpdates {action : UpdateAction} {vni : Vni} {dest : Destination} {nh : NextHop}
    {source : PeerKey} {res : Except Error ℕ} {r : Route}
    (h : .remove r ∈ (changeUpdates action vni dest nh source res).map InternalUpdate.toChange) :
    res = .ok 0 ∧ r = (vni, dest, nh) := by
  cases res with
  | error e => cases h
  | ok n =>
    simp only [changeUpdates] at h
    split at h
    · next hzero =>
      rw [List.map_singleton, List.mem_singleton] at h
      cases h
      exact ⟨congrArg _ hzero, rfl⟩
    · split at h
      · rw [List.map_singleton, List.mem_singleton] at h
        cases h
      · cases h

theorem lacks_applyUpdate {s : Node} (h : Lacks [] (shown s)) {action : UpdateAction} {vni : Vni}
    {dest : Destination} {nh : NextHop} {source : PeerKey}
    (hfine : ¬ Lapse s { s with world := (applyUpdate action vni dest nh source s.world).2 }) :
    Lacks (changeUpdates action vni dest nh source (applyUpdate action vni dest nh source s.world).1)
      (shown { s with world := (applyUpdate action vni dest nh source s.world).2 }) := by
  refine lacks_changed h rfl (either_learned (myAnnouncements_applyUpdate ..)
    (present_applyUpdate ..) fun r hr hannounced ↦ hfine ?_)
  obtain ⟨hzero, rfl⟩ := of_mem_changeUpdates hr
  cases action with
  | add =>
    simp only [applyUpdate] at hzero
    split at hzero <;> cases hzero
  | remove =>
    simp only [applyUpdate, removeNextHop] at hzero
    cases hres : s.world.mb.routeTable.removeNextHop vni dest nh source with
    | error e =>
      rw [hres] at hzero
      cases hzero
    | ok x =>
      obtain ⟨n, t⟩ := x
      rw [hres] at hzero
      cases hzero
      obtain ⟨hhas, hlost⟩ := RouteTable.loses_of_removed hres
      refine ⟨_, hannounced, hhas, .inr ?_⟩
      simp only [applyUpdate, removeNextHop, hres]
      exact hlost

abbrev Done {α : Type} (σ : Option Shown) (_ : α) : Prop := ∃ v, σ = some v ∧ Lacks [] v

abbrev Keeper : Protocol (Option (Option Shown)) Lock World InternalUpdate :=
  monitor.protocol.until Lapse

theorem quiet_monitor : Quiet monitor.protocol none (fun s s' ↦ shown s' = shown s)
    (· ≠ (.metalbondState, .write)) :=
  Monitor.quiet

instance : Std.Refl fun s s' : Node ↦ shown s' = shown s := ⟨fun _ ↦ rfl⟩

theorem follows_send {u : InternalUpdate} {v : Shown} (h : Lacks [u] v) :
    Follows monitor.protocol Done (sendOn u) (some v) := by
  refine Monitor.follows_sendOn fun s hs ↦ ?_
  obtain rfl : shown s = v := hs
  exact ⟨_, rfl, lacks_send h⟩

theorem follows_release {α : Type} {v : Shown} (h : Lacks [] v) (a : α) :
    Follows monitor.protocol (fun σ _ ↦ σ = none)
      (do release .metalbondState .write; return a : Code α) (some v) :=
  (Monitor.follows_leave h).andThen fun _ ↦ .ret rfl

theorem follows_announceRoute (vni : Vni) (dest : Destination) (nh : NextHop) :
    Follows monitor.protocol (fun σ _ ↦ σ = none) (announceRoute vni dest nh) none := by
  have hbody : ∀ v, monitor.Good v → Follows monitor.protocol Done
      (do modify (addAnnouncement vni dest nh); sendOn ⟨.add, vni, dest, nh, none⟩) (some v) := by
    intro v hv
    refine .bind (Monitor.follows_modify (Q := fun σ _ ↦ ∃ v, σ = some v ∧
      Lacks [⟨.add, vni, dest, nh, none⟩] v) fun s hs ↦ ?_) ?_
    · obtain rfl : shown s = v := hs
      exact ⟨_, rfl, lacks_addAnnouncement hv vni dest nh⟩
    · intro σ _ hex
      obtain ⟨v, rfl, hv⟩ := hex
      exact follows_send hv
  exact Monitor.follows_section hbody fun sent ↦ .ret rfl

theorem follows_withdrawRoute (vni : Vni) (dest : Destination) (nh : NextHop) :
    Follows Keeper (Unlapsed fun σ _ ↦ σ = none) (withdrawRoute vni dest nh) (some none) := by
  refine Monitor.follows_enter.until.bind_until fun σ _ hσ ↦ ?_
  obtain ⟨v, rfl, hv⟩ := hσ
  refine (Monitor.follows_update_until (Q := fun σ n ↦ ∃ v, σ = some v ∧
    Lacks (goneUpdates ⟨.remove, vni, dest, nh, none⟩ n) v) fun s hs hfine ↦ ?_).bind_until ?_
  · obtain rfl : shown s = v := hs
    exact ⟨_, rfl, lacks_removeAnnouncement hv hfine⟩
  · intro σ remaining hex
    obtain ⟨v, rfl, hv⟩ := hex
    match remaining with
    | .ok 0 =>
      refine Task.Follows.until (.bind (follows_send hv) ?_)
      intro σ sent hex
      obtain ⟨v, rfl, hv⟩ := hex
      exact follows_release hv _
    | .ok (n + 1) => exact (follows_release hv _).until
    | .error e => exact (follows_release hv _).until

theorem follows_storeUpdate (peer : Peer) (action : UpdateAction) (vni : Vni) (dest : Destination)
    (nh : NextHop) :
    Follows Keeper (Unlapsed fun σ _ ↦ σ = none) (peer.storeUpdate action vni dest nh)
      (some none) := by
  refine Monitor.follows_enter.until.bind_until fun σ _ hσ ↦ ?_
  obtain ⟨v, rfl, hv⟩ := hσ
  refine (Monitor.follows_update_until (Q := fun σ n ↦ ∃ v, σ = some v ∧
    Lacks (changeUpdates action vni dest nh (some peer.remoteAddr) n) v)
    fun s hs hfine ↦ ?_).bind_until ?_
  · obtain rfl : shown s = v := hs
    exact ⟨_, rfl, lacks_applyUpdate hv hfine⟩
  · intro σ remaining hex
    obtain ⟨v, rfl, hv⟩ := hex
    have hsent : Follows monitor.protocol Done
        (sendChange action vni dest nh (some peer.remoteAddr) remaining) (some v) := by
      refine follows_changeUpdates (Q := fun σ ↦ Done σ ()) ?_ ?_
      · intro hnone
        rw [hnone] at hv
        exact ⟨v, rfl, hv⟩
      · intro u hu
        rw [hu] at hv
        exact follows_send hv
    refine Task.Follows.until (hsent.bind ?_)
    intro σ _ hex
    obtain ⟨v, rfl, hv⟩ := hex
    exact follows_release hv _

theorem follows_processUpdate (peer : Peer) (msg : Pb.Update) :
    Follows Keeper (Unlapsed fun σ _ ↦ σ = none) (peer.processUpdate msg) (some none) := by
  have hquiet : ∀ a : Except Error Unit, Follows Keeper (Unlapsed fun σ _ ↦ σ = none)
      (.ret a : Code (Except Error Unit)) (some none) := by
    intro a
    exact Task.Follows.until (.ret rfl)
  unfold processUpdate
  split
  · exact hquiet _
  · refine (quiet_monitor.reading (by simp) _).until.bind_until fun σ isSubscribedLocally hσ ↦ ?_
    subst hσ
    split
    · exact hquiet _
    · exact follows_storeUpdate peer _ _ _ _

theorem follows_distribute (ord : HashOrder) (u : InternalUpdate) :
    Follows monitor.protocol (fun σ _ ↦ σ = none) (distribute ord u) none := by
  have htx : ∀ peer, IgnoresTx (fun s s' : Node ↦ shown s' = shown s) peer :=
    fun peer s msg ↦ shown_congr rfl rfl
  refine (quiet_monitor.acquires (by simp)).andThen fun _ ↦ ?_
  refine (quiet_monitor.update fun s ↦ shown_congr rfl rfl).andThen fun _ ↦ ?_
  refine (quiet_monitor.gets _).andThen fun peers ↦ ?_
  refine (quiet_forwardAll quiet_monitor (by simp) u fun peer _ ↦ htx peer).andThen fun _ ↦ ?_
  exact (quiet_monitor.releases (by simp)).andThen fun _ ↦ .ret rfl

theorem Work.follows {i : Option κ} {o : Option InternalUpdate} {t : Code (Except Error Unit)}
    (h : Work i o t) : Follows Keeper (Unlapsed fun σ _ ↦ σ = none) t (some none) := by
  cases h with
  | announceRoute k vni dest nh => exact (follows_announceRoute vni dest nh).until
  | withdrawRoute k vni dest nh => exact follows_withdrawRoute vni dest nh
  | processUpdate k peer msg => exact follows_processUpdate peer msg
  | distribute ord u => exact (follows_distribute ord u).until

variable {c c' : Tasks (Option κ)}

theorem Begins.tame (h : Begins c) : Tame c := by
  intro i
  obtain ⟨r, hr⟩ := h.idle i
  rw [hr]
  trivial

theorem Begins.sound (h : Begins c) : monitor.Sound c := by
  refine Monitor.sound_of_idle h.idle h.unguarded ⟨h.chanOpen, ?_⟩
  simp [monitor, shown, either, h.history, h.announced, h.learned]

theorem careful_of_disjoint (h : ∀ r, c.shared.world.mb.myAnnouncements.Has r →
    ¬ c.shared.world.mb.routeTable.Has r) : Careful c := by
  refine fun r ↦ ⟨fun hwithdraws ↦ h r ?_, fun hforgets hannounced ↦ h r hannounced ?_⟩
  · refine RouteTable.has_of_mem (?_ : none ∈ _)
    rw [hwithdraws.1]
    exact Finset.mem_singleton_self _
  · obtain ⟨source, hsources, -⟩ := hforgets
    refine RouteTable.has_of_mem (?_ : source ∈ _)
    rw [hsources]
    exact Finset.mem_singleton_self _

def Within (r r' : Route) (s : Node) : Prop :=
  s.world.mb.myAnnouncements.present ⊆ {r} ∧ s.world.mb.routeTable.present ⊆ {r'}

def StaysWithin (r r' : Route) (s s' : Node) : Prop := Within r r' s → Within r r' s'

instance (r r' : Route) : Std.Refl (StaysWithin r r') := ⟨fun _ ↦ id⟩

theorem careful_of_within {r r' : Route} (h : Within r r' c.shared) (hne : r ≠ r') : Careful c :=
  careful_of_disjoint fun _ hr hr' ↦ hne ((h.1 hr).symm.trans (h.2 hr'))

variable [DecidableEq κ]

theorem sound_of_careful (hbegins : Begins c)
    (hrun : Run (fun c c' ↦ Pool.Step Work c c' ∧ Careful c) c c') :
    Tame c' ∧ monitor.SoundUntil Lapse c' := by
  induction hrun with
  | refl => exact ⟨hbegins.tame, hbegins.sound.until⟩
  | tail _ hstep ih =>
    obtain ⟨hstep, hcareful⟩ := hstep
    obtain ⟨htame, hfine⟩ := ih.1.step hstep hcareful
    exact ⟨htame, ih.2.step (fun _ _ _ ↦ Work.follows) hstep hfine⟩

/-- Once the channel is drained and no task is in a write section, the updates that were sent
lead to the routes of both tables. -/
theorem replay_eq_either (hbegins : Begins c)
    (hrun : Run (fun c c' ↦ Pool.Step Work c c' ∧ Careful c) c c')
    (hfree : ∀ i, (.metalbondState, .write) ∉ c'.held i) (hdrained : c'.shared.chan.queue = []) :
    replay ∅ (c'.shared.chan.taken.map InternalUpdate.toChange) =
      {r | c'.shared.world.mb.myAnnouncements.Has r ∨ c'.shared.world.mb.routeTable.Has r} := by
  have hgood := ((sound_of_careful hbegins hrun).2.good hfree).2
  have hhistory : c'.shared.chan.history = c'.shared.chan.taken := by
    rw [Channel.history, hdrained, List.append_nil]
  rw [← hhistory]
  exact hgood

def Rests (s s' : Node) : Prop :=
  s'.world.mb = s.world.mb ∧ s'.chan.history = s.chan.history

instance : Std.Refl Rests := ⟨fun _ ↦ ⟨rfl, rfl⟩⟩

instance : IsTrans Node Rests := ⟨fun _ _ _ h h' ↦ ⟨h'.1.trans h.1, h'.2.trans h.2⟩⟩

theorem run_drains {s s' : Node} (h : Drains s s') (hs : c.shared = s)
    (hheld : ∀ i, c.held i = []) (hidle : c.Idle none) : ∃ c',
      Run (fun d d' ↦ Pool.Step Work d d' ∧ Rests d.shared d'.shared) c c' ∧
        (∀ i, c'.held i = []) ∧ c'.Idle none ∧ c'.shared = s' := by
  induction h generalizing c with
  | done => exact ⟨c, .refl, hheld, hidle, hs⟩
  | @next s s₁ s' u ch ord hrecv hexec _ ih =>
    subst hs
    have hconfined : Confined Rests (distribute ord u) :=
      confined_distribute (R := Rests) (fun _ ↦ ⟨rfl, rfl⟩) (fun _ _ _ ↦ ⟨rfl, rfl⟩) ord
    have hfirst := Pool.run_receive (R := Rests) hheld hidle hrecv (Work.distribute ord u)
      ⟨rfl, Channel.history_recv hrecv⟩ hconfined hexec
    obtain ⟨c', hrest, hheld', hidle', hs'⟩ := @ih (c.set none ⟨[], .ret (.ok ())⟩ s₁) rfl
      (Pool.unguarded_set hheld _ _ _) ⟨_, by rw [Pool.code_set, Function.update_self]⟩
    exact ⟨c', hfirst.trans hrest, hheld', hidle', hs'⟩

theorem exists_drained (hheld : ∀ i, c.held i = []) (hidle : c.Idle none) : ∃ c',
    Run (fun d d' ↦ Pool.Step Work d d' ∧ d'.shared.world.mb = d.shared.world.mb) c c' ∧
      (∀ i, c'.held i = []) ∧ c'.Idle none ∧ c'.shared.world.mb = c.shared.world.mb ∧
      c'.shared.chan.queue = [] ∧ c'.shared.chan.taken = c.shared.chan.history := by
  obtain ⟨s, hdrains⟩ := exists_drains default c.shared
  obtain ⟨c', hrun, hheld', hidle', rfl⟩ := run_drains hdrains rfl hheld hidle
  have hqueue := hdrains.drained.queue
  refine ⟨c', hrun.mono fun _ _ h ↦ ⟨h.1, h.2.1⟩, hheld', hidle', hdrains.drained.mb, hqueue, ?_⟩
  have hrests : Rests c.shared c'.shared := Run.within Pool.shared hrun
  rw [← hrests.2, Channel.history, hqueue, List.append_nil]

theorem begins_sample : Begins (Sample.tasks (Option Unit) (Sample.node true)) where
  toUnused := Sample.unused_tasks rfl rfl
  announced := rfl
  learned := rfl

section Within

variable {r' : Route} {vni : Vni} {dest : Destination} {nh : NextHop}

theorem staysWithin_announceRoute :
    Confined (StaysWithin (vni, dest, nh) r') (announceRoute vni dest nh) := by
  refine confined_announceRoute (fun s h ↦ ⟨?_, h.2⟩) fun s ↦ id
  rw [addAnnouncement, World.modifyMb_mb, RouteTable.present_addNextHop]
  exact Set.insert_subset rfl h.1

theorem staysWithin_withdrawRoute {r : Route} :
    Confined (StaysWithin r r') (withdrawRoute vni dest nh) := by
  refine confined_withdrawRoute (fun s h ↦ ?_) fun s ↦ id
  unfold removeAnnouncement
  cases hres : s.world.mb.myAnnouncements.removeNextHop vni dest nh none with
  | error e => exact h
  | ok x =>
    refine ⟨subset_trans ?_ h.1, h.2⟩
    rw [World.modifyMb_mb, RouteTable.present_removeNextHop hres]
    split
    · exact Set.sdiff_subset
    · exact subset_rfl

theorem staysWithin_processUpdate {r : Route} {peer : Peer} {msg : Pb.Update}
    (hparse : parseUpdate msg = .ok (.add, r')) :
    Confined (StaysWithin r r') (peer.processUpdate msg) := by
  refine peer.confined_processUpdate msg fun action vni dest nh hparsed ↦
    ⟨fun _ _ ↦ id, fun s h ↦ ⟨?_, ?_⟩⟩
  · rw [myAnnouncements_applyUpdate]
    exact h.1
  · obtain ⟨rfl, rfl⟩ := Prod.mk.inj (Except.ok.inj (hparse.symm.trans hparsed))
    refine subset_trans (RouteTable.present_addNextHop (t := s.world.mb.routeTable)).subset ?_
    exact Set.insert_subset rfl h.2

end Within

def otherRoute : Route := (100, Sample.otherDestination, Sample.nextHop)

def otherAnnouncedNode : Node :=
  (exec [] (announceRoute 100 Sample.otherDestination Sample.nextHop) (Sample.node true)).shared

def mixedNode : Node :=
  (exec [] ((Sample.peer 1 .incoming).processUpdate (Sample.update .add)) otherAnnouncedNode).shared

def keptNode : Node :=
  (exec [] (withdrawRoute 100 Sample.otherDestination Sample.nextHop) mixedNode).shared

theorem exists_kept : ∃ c : Tasks (Option Unit),
    Run (fun c c' ↦ Pool.Step Work c c' ∧ Careful c) (Sample.tasks _ (Sample.node true)) c ∧
      (∀ i, c.held i = []) ∧ c.Idle none ∧ c.shared.world.mb = keptNode.world.mb ∧
      c.shared.chan.queue = [] ∧ c.shared.chan.taken = keptNode.chan.history := by
  let c := Sample.tasks (Option Unit) (Sample.node true)
  let c₁ := c.set (some ()) ⟨[], .ret (.ok ())⟩ otherAnnouncedNode
  let c₂ := c₁.set (some ()) ⟨[], .ret (.ok ())⟩ mixedNode
  let c₃ := c₂.set (some ()) ⟨[], .ret (.ok ())⟩ keptNode
  have hheld₁ : ∀ i, c₁.held i = [] := Pool.unguarded_set (fun _ ↦ rfl) _ _ _
  have hheld₂ : ∀ i, c₂.held i = [] := Pool.unguarded_set hheld₁ _ _ _
  have hheld₃ : ∀ i, c₃.held i = [] := Pool.unguarded_set hheld₂ _ _ _
  let R := StaysWithin otherRoute Sample.route
  have hannounce : Run (fun d d' ↦ Pool.Step Work d d' ∧ R d.shared d'.shared) c c₁ :=
    Pool.run_start (fun _ ↦ rfl) (Sample.idle_tasks ..)
      (.announceRoute () 100 Sample.otherDestination Sample.nextHop)
      staysWithin_announceRoute rfl
  have hupdate : Run (fun d d' ↦ Pool.Step Work d d' ∧ R d.shared d'.shared) c₁ c₂ :=
    Pool.run_start hheld₁ ⟨_, rfl⟩ (.processUpdate () (Sample.peer 1 .incoming) (Sample.update .add))
      (staysWithin_processUpdate rfl) rfl
  have hwithdraw : Run (fun d d' ↦ Pool.Step Work d d' ∧ R d.shared d'.shared) c₂ c₃ :=
    Pool.run_start hheld₂ ⟨_, rfl⟩ (.withdrawRoute () 100 Sample.otherDestination Sample.nextHop)
      staysWithin_withdrawRoute rfl
  obtain ⟨c₄, hdrain, hheld₄, hidle₄, hmb₄, hqueue₄, htaken₄⟩ := exists_drained hheld₃ ⟨_, rfl⟩
  have hrest : Run (fun d d' ↦ Pool.Step Work d d' ∧ R d.shared d'.shared) c₃ c₄ :=
    hdrain.mono fun _ _ h ↦ ⟨h.1, fun hwithin ↦ by rwa [Within, h.2]⟩
  let Inside (d : Tasks (Option Unit)) : Prop := Within otherRoute Sample.route d.shared
  have hinside : Inside c := by
    have hnew : RouteTable.new.present = ∅ := RouteTable.present_new
    exact ⟨hnew.subset.trans (Set.empty_subset _), hnew.subset.trans (Set.empty_subset _)⟩
  have hrun := Run.along (hannounce.trans (hupdate.trans (hwithdraw.trans hrest))) hinside
    fun _ _ h hstep ↦ hstep.2 h
  have hne : otherRoute ≠ Sample.route := by decide
  exact ⟨c₄, hrun.mono fun _ _ h ↦ ⟨h.1.1, careful_of_within h.2 hne⟩, hheld₄, hidle₄, hmb₄,
    hqueue₄, htaken₄⟩

theorem replay_eq_either_sample : ∃ s : Node, s.world.mb.routeTable.Has Sample.route ∧
    ¬ s.world.mb.myAnnouncements.Has otherRoute ∧
    s.chan.taken.map InternalUpdate.toChange =
      [.add otherRoute, .add Sample.route, .remove otherRoute] ∧
    replay ∅ (s.chan.taken.map InternalUpdate.toChange) =
      {r | s.world.mb.myAnnouncements.Has r ∨ s.world.mb.routeTable.Has r} := by
  obtain ⟨c, hrun, hheld, -, hmb, hqueue, htaken⟩ := exists_kept
  refine ⟨c.shared, ?_, ?_, congrArg (List.map InternalUpdate.toChange) htaken,
    replay_eq_either begins_sample hrun (fun i ↦ ?_) hqueue⟩
  · rw [hmb]
    decide
  · rw [hmb]
    decide
  · rw [hheld]
    exact List.not_mem_nil

def announcedNode : Node :=
  (exec [] (announceRoute 100 Sample.destination Sample.nextHop) (Sample.node true)).shared

def sharedNode : Node :=
  (exec [] ((Sample.peer 1 .incoming).processUpdate (Sample.update .add)) announcedNode).shared

def withdrawnNode : Node :=
  (exec [] (withdrawRoute 100 Sample.destination Sample.nextHop) sharedNode).shared

/-- The route is announced, learned from a peer, and withdrawn: the `Remove` takes it out
although the peer still announces it. -/
theorem withdrawal_removes_learned_route : ¬ ∀ c c' : Tasks (Option Unit), Begins c →
    Run (Pool.Step Work) c c' → (∀ i, (.metalbondState, .write) ∉ c'.held i) →
      c'.shared.chan.queue = [] →
      replay ∅ (c'.shared.chan.taken.map InternalUpdate.toChange) =
        {r | c'.shared.world.mb.myAnnouncements.Has r ∨ c'.shared.world.mb.routeTable.Has r} := by
  intro hevery
  let c := Sample.tasks (Option Unit) (Sample.node true)
  let c₁ := c.set (some ()) ⟨[], .ret (.ok ())⟩ announcedNode
  let c₂ := c₁.set (some ()) ⟨[], .ret (.ok ())⟩ sharedNode
  let c₃ := c₂.set (some ()) ⟨[], .ret (.ok ())⟩ withdrawnNode
  have hheld₁ : ∀ i, c₁.held i = [] := Pool.unguarded_set (fun _ ↦ rfl) _ _ _
  have hheld₂ : ∀ i, c₂.held i = [] := Pool.unguarded_set hheld₁ _ _ _
  have hheld₃ : ∀ i, c₃.held i = [] := Pool.unguarded_set hheld₂ _ _ _
  have hrun₁ : Run (Pool.Step Work) c c₁ :=
    Pool.run_whole (fun _ ↦ rfl) (Sample.idle_tasks ..)
      (.announceRoute () 100 Sample.destination Sample.nextHop) rfl
  have hrun₂ : Run (Pool.Step Work) c₁ c₂ :=
    Pool.run_whole hheld₁ ⟨_, rfl⟩
      (.processUpdate () (Sample.peer 1 .incoming) (Sample.update .add)) rfl
  have hrun₃ : Run (Pool.Step Work) c₂ c₃ :=
    Pool.run_whole hheld₂ ⟨_, rfl⟩ (.withdrawRoute () 100 Sample.destination Sample.nextHop) rfl
  obtain ⟨c₄, hdrain, hheld₄, -, hmb₄, hqueue₄, htaken₄⟩ := exists_drained hheld₃ ⟨.ok (), rfl⟩
  have hfree : ∀ i, (.metalbondState, .write) ∉ c₄.held i := by
    intro i
    rw [hheld₄]
    exact List.not_mem_nil
  have hrun := hrun₁.trans (hrun₂.trans (hrun₃.trans (hdrain.mono fun _ _ h ↦ h.1)))
  have hreplay := hevery c c₄ begins_sample hrun hfree hqueue₄
  have hhas : Sample.route ∈ {r | c₄.shared.world.mb.myAnnouncements.Has r ∨
      c₄.shared.world.mb.routeTable.Has r} := by
    rw [hmb₄]
    exact Or.inr (by decide)
  have hchanges : c₃.shared.chan.history.map InternalUpdate.toChange =
      [.add Sample.route, .add Sample.route, .remove Sample.route] := rfl
  rw [← hreplay, htaken₄, hchanges] at hhas
  simp [Change.apply] at hhas

end TwoTables

end MetalBond
