import MetalBond.Ledger

namespace MetalBond

open Async Task Collections HashMap Peer

section Handlers

variable {first : Set Route} (ord : HashOrder) (self : Peer)

abbrev learned (s : Node) : Ledger := ledger (·.routeTable) s

abbrev tableMonitor (first : Set Route) : Monitor Lock World InternalUpdate Ledger :=
  ledgerMonitor (·.routeTable) first

/-- The updates that the count of `process_update` calls for. -/
def changeUpdates (action : UpdateAction) (vni : Vni) (dest : Destination) (nh : NextHop)
    (source : PeerKey) : Except Error ℕ → List InternalUpdate
  | .ok n =>
    if n = 0 then [⟨.remove, vni, dest, nh, source⟩]
    else if n = 1 ∧ action = .add then [⟨.add, vni, dest, nh, source⟩]
    else []
  | .error _ => []

/-- The changes that are passed on lead from the old routes to the new ones. -/
theorem present_removal (vni : Vni) (dest : Destination) (nh : NextHop) (source : PeerKey)
    (w : World) : (removeNextHop vni dest nh source w).2.mb.routeTable.present =
      replay w.mb.routeTable.present ((goneUpdates ⟨.remove, vni, dest, nh, source⟩
        (removeNextHop vni dest nh source w).1).map InternalUpdate.toChange) := by
  unfold removeNextHop
  cases hres : w.mb.routeTable.removeNextHop vni dest nh source with
  | error e => rfl
  | ok x =>
    obtain ⟨n, t⟩ := x
    have hpresent := RouteTable.present_removeNextHop hres
    cases n <;> exact hpresent

theorem present_applyUpdate (action : UpdateAction) (vni : Vni) (dest : Destination) (nh : NextHop)
    (source : PeerKey) (w : World) :
    (applyUpdate action vni dest nh source w).2.mb.routeTable.present =
      replay w.mb.routeTable.present ((changeUpdates action vni dest nh source
        (applyUpdate action vni dest nh source w).1).map InternalUpdate.toChange) := by
  cases action with
  | add =>
    refine RouteTable.present_addNextHop.trans ?_
    by_cases hmem : source ∈ w.mb.routeTable.sources (vni, dest, nh)
    · have hold : (addNextHop vni dest nh source w).1 = false := by
        simp [addNextHop, RouteTable.addNextHop, hmem]
      rw [RouteTable.insert_present hmem]
      simp [applyUpdate, hold, changeUpdates]
    · have hnew : (addNextHop vni dest nh source w).1 = true := by
        simp [addNextHop, RouteTable.addNextHop, hmem]
      simp [applyUpdate, hnew, changeUpdates, InternalUpdate.toChange, changeOf, Change.apply,
        InternalUpdate.route]
  | remove =>
    have heq : ∀ n, changeUpdates .remove vni dest nh source n =
        goneUpdates ⟨.remove, vni, dest, nh, source⟩ n := by
      rintro (_ | _ | n) <;> simp [changeUpdates, goneUpdates]
    rw [heq]
    exact present_removal vni dest nh source w

theorem owes_removeNextHop {s : Node} (h : Owes first [] (learned s)) (vni : Vni)
    (dest : Destination) (nh : NextHop) (source : PeerKey) :
    Owes first (goneUpdates ⟨.remove, vni, dest, nh, source⟩
        (removeNextHop vni dest nh source s.world).1)
      (learned { s with world := (removeNextHop vni dest nh source s.world).2 }) :=
  @owes_table (·.routeTable) first s ⟨(removeNextHop vni dest nh source s.world).2, s.chan⟩ h rfl _
    (present_removal vni dest nh source s.world)

theorem owes_applyUpdate {s : Node} (h : Owes first [] (learned s)) (action : UpdateAction)
    (vni : Vni) (dest : Destination) (nh : NextHop) (source : PeerKey) :
    Owes first (changeUpdates action vni dest nh source
        (applyUpdate action vni dest nh source s.world).1)
      (learned { s with world := (applyUpdate action vni dest nh source s.world).2 }) :=
  @owes_table (·.routeTable) first s ⟨(applyUpdate action vni dest nh source s.world).2, s.chan⟩ h
    rfl _ (present_applyUpdate action vni dest nh source s.world)

theorem follows_sendIfGone {u : InternalUpdate} {remaining : Except Error ℕ} {v : Ledger}
    (h : Owes first (goneUpdates u remaining) v) :
    Follows (tableMonitor first).protocol (Settled (·.routeTable) first)
      (sendIfGone u remaining) (some v) := by
  match remaining with
  | .ok 0 => exact .bind (follows_sendOwed h) fun _ _ hσ ↦ .ret hσ
  | .ok (n + 1) => exact .ret ⟨v, rfl, h⟩
  | .error e => exact .ret ⟨v, rfl, h⟩

theorem follows_changeUpdates {Stage : Type} {P : Protocol Stage Lock World InternalUpdate}
    {σ : Stage} {Q : Stage → Prop} {action : UpdateAction} {vni : Vni} {dest : Destination}
    {nh : NextHop} {source : PeerKey} {remaining : Except Error ℕ}
    (hnone : changeUpdates action vni dest nh source remaining = [] → Q σ)
    (hsend : ∀ u, changeUpdates action vni dest nh source remaining = [u] →
      Follows P (fun τ _ ↦ Q τ) (sendOn u) σ) :
    Follows P (fun τ _ ↦ Q τ) (sendChange action vni dest nh source remaining) σ := by
  cases remaining with
  | error e => exact .ret (hnone rfl)
  | ok n =>
    simp only [changeUpdates] at hnone hsend
    simp only [sendChange]
    split
    · next hzero =>
      rw [if_pos hzero] at hsend
      exact .bind (hsend _ rfl) fun _ _ hσ ↦ .ret hσ
    · next hzero =>
      rw [if_neg hzero] at hsend hnone
      split
      · next hone =>
        rw [if_pos hone] at hsend
        exact .bind (hsend _ rfl) fun _ _ hσ ↦ .ret hσ
      · next hone =>
        rw [if_neg hone] at hnone
        exact .ret (hnone rfl)

theorem follows_sendChange {action : UpdateAction} {vni : Vni} {dest : Destination} {nh : NextHop}
    {source : PeerKey} {remaining : Except Error ℕ} {v : Ledger}
    (h : Owes first (changeUpdates action vni dest nh source remaining) v) :
    Follows (tableMonitor first).protocol (Settled (·.routeTable) first)
      (sendChange action vni dest nh source remaining) (some v) := by
  refine follows_changeUpdates (Q := fun σ ↦ Settled (·.routeTable) first σ ()) ?_ ?_
  · intro hnone
    rw [hnone] at h
    exact ⟨v, rfl, h⟩
  · intro u hu
    rw [hu] at h
    exact follows_sendOwed h

theorem follows_storeUpdate (action : UpdateAction) (vni : Vni) (dest : Destination)
    (nh : NextHop) :
    Follows (tableMonitor first).protocol (fun σ _ ↦ σ = none)
      (self.storeUpdate action vni dest nh) none := by
  have hbody : ∀ v, (tableMonitor first).Good v → Follows (tableMonitor first).protocol
      (Settled (·.routeTable) first) (do
        let remainingCount ← update (applyUpdate action vni dest nh (some self.remoteAddr))
        sendChange action vni dest nh (some self.remoteAddr) remainingCount) (some v) := by
    intro v hv
    refine .bind (Monitor.follows_update (Q := fun σ n ↦ ∃ v, σ = some v ∧
      Owes first (changeUpdates action vni dest nh (some self.remoteAddr) n) v) fun s hs ↦ ?_) ?_
    · obtain rfl : learned s = v := hs
      exact ⟨_, rfl, owes_applyUpdate hv ..⟩
    · intro σ n hex
      obtain ⟨v, rfl, hv⟩ := hex
      exact follows_sendChange hv
  exact Monitor.follows_section hbody fun _ ↦ .ret rfl

theorem follows_processUpdate (msg : Pb.Update) :
    Follows (tableMonitor first).protocol (fun σ _ ↦ σ = none) (self.processUpdate msg) none := by
  unfold processUpdate
  split
  · exact .ret rfl
  · refine (quiet_ledger.reading (by simp) _).andThen fun isSubscribedLocally ↦ ?_
    split
    · exact .ret rfl
    · exact follows_storeUpdate self _ _ _ _

theorem follows_removeLearned (vni : Vni)
    (routes : List (Destination × NextHop × Finset PeerKey)) :
    Follows (tableMonitor first).protocol (fun σ _ ↦ σ = none) (self.removeLearned vni routes)
      none := by
  induction routes with
  | nil => exact .ret rfl
  | cons x rest ih =>
    obtain ⟨dest, nh, sources⟩ := x
    unfold removeLearned
    split
    · have hbody : ∀ v, (tableMonitor first).Good v → Follows (tableMonitor first).protocol
          (Settled (·.routeTable) first) (do
            let remaining ← update (removeNextHop vni dest nh (some self.remoteAddr))
            sendIfGone ⟨.remove, vni, dest, nh, some self.remoteAddr⟩ remaining) (some v) := by
        intro v hv
        refine .bind (Monitor.follows_update (Q := fun σ n ↦ ∃ v, σ = some v ∧
          Owes first (goneUpdates ⟨.remove, vni, dest, nh, some self.remoteAddr⟩ n) v)
          fun s hs ↦ ?_) ?_
        · obtain rfl : learned s = v := hs
          exact ⟨_, rfl, owes_removeNextHop hv ..⟩
        · intro σ n hex
          obtain ⟨v, rfl, hv⟩ := hex
          exact follows_sendIfGone hv
      exact Monitor.follows_section hbody fun _ ↦ ih
    · exact ih

theorem follows_processUnsubscribe (unsub : Pb.Subscription) :
    Follows (tableMonitor first).protocol (fun σ _ ↦ σ = none)
      (self.processUnsubscribe ord unsub) none := by
  have hview : ∀ s : Node, learned { s with
      world := (removeSubscriber self.remoteAddr unsub.vni s.world).2 } = learned s := by
    intro s
    unfold removeSubscriber
    split <;> rfl
  refine .andThen (Monitor.follows_writing hview fun _ ↦ rfl) fun removed ↦ ?_
  refine (quiet_ledger.writing (by simp) fun s ↦ rfl).andThen fun _ ↦ ?_
  cases removed with
  | true =>
    refine (quiet_ledger.reading (by simp) _).andThen fun routes ↦ ?_
    exact (follows_removeLearned self unsub.vni _).andThen fun _ ↦ .ret rfl
  | false => exact .ret rfl

end Handlers

/-- A peer handles an `UPDATE` or an `UNSUBSCRIBE`; the remaining task, `none`, is the
distributor, which takes the next update. -/
inductive UpdateWork {κ : Type} (peer : κ → Peer) :
    Option κ → Option InternalUpdate → Code (Except Error Unit) → Prop
  | processUpdate (k : κ) (msg : Pb.Update) :
    UpdateWork peer (some k) none ((peer k).processUpdate msg)
  | processUnsubscribe (k : κ) (ord : HashOrder) (unsub : Pb.Subscription) :
    UpdateWork peer (some k) none ((peer k).processUnsubscribe ord unsub)
  | distribute (ord : HashOrder) (u : InternalUpdate) :
    UpdateWork peer none (some u) (distribute ord u)

section UpdateLog

variable {κ : Type} {peer : κ → Peer}

theorem UpdateWork.follows {first : Set Route} {i : Option κ} {o : Option InternalUpdate}
    {t : Code (Except Error Unit)} (h : UpdateWork peer i o t) :
    Follows (tableMonitor first).protocol (fun σ _ ↦ σ = none) t none := by
  cases h with
  | processUpdate k msg => exact follows_processUpdate (peer k) msg
  | processUnsubscribe k ord unsub => exact follows_processUnsubscribe ord (peer k) unsub
  | distribute ord u => exact follows_distribute ord u

variable [DecidableEq κ] {c c' : Tasks (Option κ)}

/-- Whenever no task is in a write section, the updates sent so far lead from the empty set
to the routes of the table. -/
theorem replay_history_eq_table (hinit : Unused c)
    (hempty : c.shared.world.mb.routeTable = RouteTable.new)
    (hrun : Run (Pool.Step (UpdateWork peer)) c c')
    (hfree : ∀ i, (.metalbondState, .write) ∉ c'.held i) :
    replay ∅ (c'.shared.chan.history.map InternalUpdate.toChange) =
      {r | c'.shared.world.mb.routeTable.Has r} := by
  have hinit' := hinit.sound (·.routeTable)
  rw [hempty, RouteTable.present_new] at hinit'
  have hsound : (tableMonitor ∅).Sound c' :=
    hrun.invariant hinit' fun _ _ h hstep ↦ h.step (fun _ _ _ ↦ UpdateWork.follows) hstep
  exact (hsound.good hfree).2

end UpdateLog

namespace Sample

def learnedNode : Node :=
  (exec [] ((peer 1 .incoming).processUpdate (update .add)) (node true)).shared

end Sample

theorem replay_history_eq_table_of_add :
    Sample.learnedNode.chan.history ≠ [] ∧
      replay ∅ (Sample.learnedNode.chan.history.map InternalUpdate.toChange) =
        {r | Sample.learnedNode.world.mb.routeTable.Has r} := by
  let c := Sample.tasks (Option Unit) (Sample.node true)
  let work : UpdateWork (fun _ : Unit ↦ Sample.peer 1 .incoming) (some ()) none _ :=
    .processUpdate () (Sample.update .add)
  have hrun : Run _ c (c.set (some ()) ⟨[], .ret (.ok ())⟩ Sample.learnedNode) :=
    Pool.run_whole (fun _ ↦ rfl) (Sample.idle_tasks ..) work rfl
  refine ⟨by decide, replay_history_eq_table (Sample.unused_tasks rfl rfl) rfl hrun fun i ↦ ?_⟩
  rw [Pool.unguarded_set fun _ ↦ rfl]
  exact List.not_mem_nil

end MetalBond
