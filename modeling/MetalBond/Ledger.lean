import MetalBond.Async.Monitor
import MetalBond.Collections.Replay
import MetalBond.Distribution

namespace MetalBond

open Async Task Collections HashMap

def changeOf (action : UpdateAction) (r : Route) : Change Route :=
  match action with
  | .add => .add r
  | .remove => .remove r

@[simp] theorem subject_changeOf (action : UpdateAction) (r : Route) :
    (changeOf action r).subject = r := by
  cases action <;> rfl

namespace InternalUpdate

def route (u : InternalUpdate) : Route := (u.vni, u.destination, u.nextHop)

def toChange (u : InternalUpdate) : Change Route := changeOf u.action u.route

end InternalUpdate

namespace RouteTable

def present (t : RouteTable) : Set Route := {r | t.Has r}

variable {t : RouteTable} {vni : Vni} {dest : Destination} {nh : NextHop} {k : PeerKey}

@[simp] theorem present_new : new.present = ∅ := by
  ext r
  simp [present, Has]

theorem present_store (r : Route) (peers : Finset PeerKey) :
    (t.store r peers).present = if peers = ∅ then t.present \ {r} else insert r t.present := by
  ext r'
  by_cases hr : r' = r
  · subst hr
    by_cases hp : peers = ∅ <;> simp [present, Has, sources_store, hp]
  · by_cases hp : peers = ∅ <;> simp [present, Has, sources_store, hp, hr]

theorem present_addNextHop :
    (t.addNextHop vni dest nh k).2.present = insert (vni, dest, nh) t.present := by
  rw [addNextHop, present_store, if_neg (Finset.insert_ne_empty _ _)]

theorem insert_present (h : k ∈ t.sources (vni, dest, nh)) :
    insert (vni, dest, nh) t.present = t.present :=
  Set.insert_eq_of_mem (has_of_mem h)

theorem present_erase (h : k ∈ t.sources (vni, dest, nh)) :
    (t.store (vni, dest, nh) ((t.sources (vni, dest, nh)).erase k)).present =
      if ((t.sources (vni, dest, nh)).erase k).card = 0 then t.present \ {(vni, dest, nh)}
      else t.present := by
  rw [present_store, insert_present h]
  simp only [Finset.card_eq_zero]

theorem present_removeNextHop {n : ℕ} {t' : RouteTable}
    (h : t.removeNextHop vni dest nh k = .ok (n, t')) :
    t'.present = if n = 0 then t.present \ {(vni, dest, nh)} else t.present := by
  by_cases hmem : k ∈ t.sources (vni, dest, nh)
  · rw [removeNextHop_of_mem hmem] at h
    cases h
    exact present_erase hmem
  · obtain ⟨e, he⟩ := removeNextHop_of_notMem hmem
    cases he.symm.trans h

end RouteTable

structure Ledger where
  table : RouteTable
  history : List InternalUpdate
  closed : Bool

def Ledger.logged (first : Set Route) (v : Ledger) : Set Route :=
  replay first (v.history.map InternalUpdate.toChange)

def ledger (table : MetalBondState → RouteTable) (s : Node) : Ledger :=
  ⟨table s.world.mb, s.chan.history, s.chan.closed⟩

/-- The lock of the shared state guards the table, and what was sent about it leads to it. -/
def ledgerMonitor (table : MetalBondState → RouteTable) (first : Set Route) :
    Monitor Lock World InternalUpdate Ledger where
  lock := .metalbondState
  view := ledger table
  Good v := v.closed = false ∧ v.logged first = v.table.present
  view_recv hrecv := by
    simp only [ledger, Channel.history_recv hrecv, Channel.closed_recv hrecv]

section Owes

variable {table : MetalBondState → RouteTable} {first : Set Route}

def Owes (first : Set Route) (missing : List InternalUpdate) (v : Ledger) : Prop :=
  v.closed = false ∧ replay (v.logged first) (missing.map InternalUpdate.toChange) = v.table.present

theorem owes_send {u : InternalUpdate} {s : Node} (h : Owes first [u] (ledger table s)) :
    Owes first [] (ledger table { s with chan := (s.chan.send u).2 }) := by
  obtain ⟨hopen, hlog⟩ := h
  have hclosed : s.chan.closed = false := hopen
  refine ⟨?_, ?_⟩
  · simp [ledger, Channel.send_of_open hclosed, hclosed]
  · simpa [ledger, Ledger.logged, Channel.send_of_open hclosed] using hlog

theorem owes_table {s s' : Node} (h : Owes first [] (ledger table s)) (hchan : s'.chan = s.chan)
    {us : List InternalUpdate} (ht : (table s'.world.mb).present =
      replay (table s.world.mb).present (us.map InternalUpdate.toChange)) :
    Owes first us (ledger table s') := by
  obtain ⟨hopen, hlog⟩ := h
  have hlog' : (ledger table s).logged first = (table s.world.mb).present := hlog
  rw [← hlog'] at ht
  refine ⟨by rw [← hopen, ledger, hchan]; rfl, ?_⟩
  rw [Ledger.logged, ledger, hchan]
  exact ht.symm

def goneUpdates (u : InternalUpdate) : Except Error ℕ → List InternalUpdate
  | .ok 0 => [u]
  | _ => []

theorem owes_removal {s s' : Node} (h : Owes first [] (ledger table s)) {vni : Vni}
    {dest : Destination} {nh : NextHop} {k source : PeerKey} {n : ℕ} {t : RouteTable}
    (ht : (table s.world.mb).removeNextHop vni dest nh k = .ok (n, t))
    (htable : table s'.world.mb = t) (hchan : s'.chan = s.chan) :
    Owes first (goneUpdates ⟨.remove, vni, dest, nh, source⟩ (.ok n)) (ledger table s') := by
  refine owes_table h hchan ?_
  rw [htable, RouteTable.present_removeNextHop ht]
  cases n <;> rfl

abbrev Settled (table : MetalBondState → RouteTable) (first : Set Route) {α : Type}
    (σ : Option Ledger) (_ : α) : Prop :=
  ∃ v, σ = some v ∧ (ledgerMonitor table first).Good v

theorem follows_sendOwed {u : InternalUpdate} {v : Ledger} (h : Owes first [u] v) :
    Follows (ledgerMonitor table first).protocol (Settled table first) (sendOn u) (some v) := by
  refine Monitor.follows_sendOn fun s hs ↦ ?_
  obtain rfl : ledger table s = v := hs
  exact ⟨_, rfl, owes_send h⟩

theorem quiet_ledger : Quiet (ledgerMonitor table first).protocol none
    (fun s s' ↦ ledger table s' = ledger table s) (· ≠ (.metalbondState, .write)) :=
  Monitor.quiet

instance : Std.Refl fun s s' : Node ↦ ledger table s' = ledger table s := ⟨fun _ ↦ rfl⟩

theorem follows_distribute (ord : HashOrder) (u : InternalUpdate) :
    Follows (ledgerMonitor table first).protocol (fun σ _ ↦ σ = none) (distribute ord u) none := by
  refine (quiet_ledger.acquires (by simp)).andThen fun _ ↦ ?_
  refine (quiet_ledger.update fun s ↦ rfl).andThen fun _ ↦ ?_
  refine (quiet_ledger.gets _).andThen fun peers ↦ ?_
  refine (quiet_forwardAll quiet_ledger (by simp) u fun peer _ s msg ↦ rfl).andThen fun _ ↦ ?_
  exact (quiet_ledger.releases (by simp)).andThen fun _ ↦ .ret rfl

end Owes

abbrev Tasks (ι : Type) := Pool ι Lock World InternalUpdate (Except Error Unit)

structure Unused {ι : Type} (c : Tasks ι) : Prop where
  idle : ∀ i, c.Idle i
  unguarded : ∀ i, c.held i = []
  chanOpen : c.shared.chan.closed = false
  history : c.shared.chan.history = []

theorem Unused.sound {ι : Type} {c : Tasks ι} (h : Unused c)
    (table : MetalBondState → RouteTable) :
    (ledgerMonitor table (table c.shared.world.mb).present).Sound c := by
  refine Monitor.sound_of_idle h.idle h.unguarded ⟨h.chanOpen, ?_⟩
  simp only [ledgerMonitor, ledger, Ledger.logged, h.history, List.map_nil, replay_nil]

namespace Sample

def tasks (ι : Type) (s : Node) : Tasks ι := ⟨fun _ ↦ ⟨[], .ret (.ok ())⟩, s⟩

theorem idle_tasks {ι : Type} (s : Node) (i : ι) : (tasks ι s).Idle i := ⟨_, rfl⟩

theorem unused_tasks {ι : Type} {s : Node} (hopen : s.chan.closed = false)
    (hhistory : s.chan.history = []) : Unused (tasks ι s) :=
  ⟨idle_tasks s, fun _ ↦ rfl, hopen, hhistory⟩

end Sample

end MetalBond
