import MetalBond.Async.Owned
import MetalBond.RemoteRole

namespace MetalBond.SubscriptionRecords

open Async Task Collections HashMap Peer
open Losses (dropReceiver)
open RemoteRole (Elsewhere)

inductive Actor (ι κ : Type)
  | connection (i : ι)
  | caller (k : κ)
  | distributor
  deriving DecidableEq

/-- What the tasks do from one wait to the next, in any order. -/
inductive Work {ι κ : Type} (peers : ι → Peer) :
    Actor ι κ → Option InternalUpdate → Code Unit → Prop
  | connect (i : ι) (ord : HashOrder) : Work peers (.connection i) none (do
      insertPeer (peers i)
      let _ ← (peers i).startPeer ord
      return ())
  | round (i : ι) (ord : HashOrder) (r : Round) (t : Timers) : Work peers (.connection i) none (do
      let _ ← (peers i).selectRound ord r t
      return ())
  | disconnect (i : ι) : Work peers (.connection i) none (do
      modify (dropReceiver (peers i))
      erasePeer (peers i).remoteAddr)
  | call (k : κ) {t : Code (Except Error Unit)} (h : Call t) : Work peers (.caller k) none (do
      let _ ← t
      return ())
  | distribute (ord : HashOrder) (u : InternalUpdate) : Work peers .distributor (some u) (do
      let _ ← distribute ord u
      return ())

def WorkBut {ι κ : Type} (peers : ι → Peer) (i : ι) (a : Actor ι κ) (o : Option InternalUpdate)
    (t : Code Unit) : Prop := a ≠ .connection i ∧ Work peers a o t

section Records

variable (p : Peer) (s : Node)

/-- The peer records the VNIs under which the node lists its address, and no others. -/
def Mirrored : Prop := ∀ vni, vni ∈ (p.cellOf s).subscribedVnisRemote ↔
  p.remoteAddr ∈ valueAt s.world.mb.subscribers vni

/-- The node lists the peer's address nowhere. -/
def Unlisted : Prop := ∀ vni, p.remoteAddr ∉ valueAt s.world.mb.subscribers vni

end Records

structure Fresh {ι κ : Type} (peers : ι → Peer)
    (c : Pool (Actor ι κ) Lock World InternalUpdate Unit) : Prop where
  idle : ∀ a, c.Idle a
  unguarded : ∀ a, c.held a = []
  cells : ∀ i, (peers i).cellOf c.shared = .new
  subscribers : c.shared.world.mb.subscribers = ∅

def records (p : Peer) (w : World) : Finset Vni × Set Vni :=
  ((w.cell p.id).subscribedVnisRemote, {vni | p.remoteAddr ∈ valueAt w.mb.subscribers vni})

def Agree (v : Finset Vni × Set Vni) : Prop := ∀ vni, vni ∈ v.1 ↔ vni ∈ v.2

section Same

variable {p q : Peer} {s s' : Node}

theorem same_of_eq (hsubs : s'.world.mb.subscribers = s.world.mb.subscribers)
    (hcell : (p.cellOf s').subscribedVnisRemote = (p.cellOf s).subscribedVnisRemote) :
    Same (records p) s s' := by
  rw [cellOf, cellOf] at hcell
  rw [Same, records, records, hsubs, hcell]

theorem same_of_cells (hsubs : s'.world.mb.subscribers = s.world.mb.subscribers)
    (hcells : s'.world.cell = s.world.cell) : Same (records p) s s' :=
  same_of_eq hsubs (by rw [cellOf, hcells, cellOf])

theorem same_modifyCell (s : Node) {f : PeerCell → PeerCell}
    (hf : ∀ c, (f c).subscribedVnisRemote = c.subscribedVnisRemote) :
    Same (records p) s { s with world := s.world.modifyCell q.id f } := by
  refine same_of_eq rfl ?_
  by_cases hid : p.id = q.id
  · simp only [cellOf, hid, World.modifyCell_cell, hf]
  · simp only [cellOf, World.modifyCell_cell_of_ne _ hid]

theorem same_sent (s : Node) (msg : GeneratedMessage) : Same (records p) s (q.sent s msg) := by
  refine same_of_eq rfl ?_
  by_cases hid : p.id = q.id
  · have hlink := ((q.cellOf s).sameLink_trySend msg).2.2
    have hcell : q.cellOf (q.sent s msg) = ((q.cellOf s).trySend msg).2 := cellOf_withCell ..
    rw [cellOf, hid, cellOf, hid]
    exact (congrArg PeerCell.subscribedVnisRemote hcell).trans hlink
  · exact congrArg PeerCell.subscribedVnisRemote (World.setCell_cell_of_ne _ hid _)

theorem same_tableOnly (h : TableOnly s s') : Same (records p) s s' :=
  same_of_cells (by rw [h.mb_eq]) h.cell_eq

theorem same_takeOutgoing (s : Node) :
    Same (records p) s { s with world := q.takeOutgoing s.world } := by
  obtain ⟨tx, htake⟩ := q.takeOutgoing_eq s.world
  rw [htake]
  exact same_modifyCell s fun _ ↦ rfl

theorem same_insertPeer : Confined (Same (records p)) (insertPeer q) := .writing fun _ ↦ rfl

theorem same_erasePeer (addr : SocketAddr) : Confined (Same (records p)) (erasePeer addr) :=
  .writing fun _ ↦ rfl

theorem same_disconnect : Confined (Same (records p)) (do
    modify (dropReceiver q)
    erasePeer q.remoteAddr : Code Unit) :=
  .bind (.modify fun s ↦ same_modifyCell s fun _ ↦ rfl) fun _ ↦ same_erasePeer q.remoteAddr

theorem acts_same (hid : p.id ≠ q.id) (haddr : q.remoteAddr ≠ p.remoteAddr) :
    q.Acts (Same (records p)) := by
  have hboth : q.Acts fun s s' ↦ Spares p.remoteAddr s s' ∧ Elsewhere q s s' :=
    (acts_spares haddr).and RemoteRole.acts_elsewhere
  refine hboth.mono fun s s' ⟨hspares, helsewhere⟩ ↦ ?_
  have hlisted : {vni | p.remoteAddr ∈ valueAt s'.world.mb.subscribers vni} =
      {vni | p.remoteAddr ∈ valueAt s.world.mb.subscribers vni} :=
    Set.ext hspares.subscribers
  rw [Same, records, records, hlisted, helsewhere.2 p.id hid]

theorem same_call {t : Code (Except Error Unit)} (h : Call t) : Confined (Same (records p)) t := by
  cases h with
  | subscribe ord vni =>
    exact confined_subscribe ord (fun _ _ ↦ rfl) (fun _ _ ↦ same_of_cells rfl rfl)
      (fun q s msg ↦ same_sent s msg) vni
  | unsubscribe ord vni =>
    exact confined_unsubscribe ord (fun _ _ ↦ rfl) (fun _ _ ↦ same_of_cells rfl rfl)
      (fun q s msg ↦ same_sent s msg) vni
  | announceRoute vni dest nh =>
    refine confined_announceRoute (fun s ↦ same_of_cells ?_ ?_) fun _ ↦ rfl
    · simp only [addAnnouncement, World.modifyMb_mb]
    · simp only [addAnnouncement, World.modifyMb_cell]
  | withdrawRoute vni dest nh =>
    refine confined_withdrawRoute (fun s ↦ ?_) fun _ ↦ rfl
    unfold removeAnnouncement
    split
    · rfl
    · exact same_of_cells rfl rfl
  | addPeer parse serverAddr =>
    exact confined_addPeer parse (fun _ _ ↦ same_of_cells rfl rfl) serverAddr
  | removePeer parse ord addrStr =>
    refine confined_removePeer ord parse (fun s addr ↦ ?_) (fun s addr ↦ ?_)
      (fun _ _ ↦ same_of_cells rfl rfl) (fun _ _ ↦ rfl) addrStr
    · unfold abortManager
      split
      · rfl
      · exact same_of_cells rfl rfl
    · unfold shutdownPeer
      split
      · exact Std.Refl.refl s
      · next peer _ => exact same_modifyCell (q := peer) s fun _ ↦ rfl

theorem same_distribute (ord : HashOrder) (u : InternalUpdate) :
    Confined (Same (records p)) (distribute ord u) :=
  confined_distribute (R := Same (records p)) (fun _ ↦ rfl) (fun _ s msg ↦ same_sent s msg) ord

end Same

section Own

variable {p : Peer} {v : Finset Vni × Set Vni}

def Mirrors (p : Peer) {α : Type} (t : Code α) : Prop :=
  ∀ v, Agree v → Follows (owner (records p)) (fun v _ ↦ Agree v) t v

theorem mirrors_of_same {α : Type} {t : Code α} (h : Confined (Same (records p)) t) :
    Mirrors p t := by
  intro v hv
  refine (quiet_owner.of_confined h).mono fun v' a heq ↦ ?_
  rwa [heq]

theorem Mirrors.bind {α β : Type} {t : Code α} {g : α → Code β} (h : Mirrors p t)
    (hg : ∀ a, Mirrors p (g a)) : Mirrors p (t >>= g) :=
  fun v hv ↦ (h v hv).bind fun v' a hv' ↦ hg a v' hv'

/-- One record is written, then the other; in between the others see them disagree. -/
theorem mirrors_both {α β : Type} {l l' : Lock} {f : World → β × World} {g : World → Unit × World}
    {k : β → Code α} (registered : Set Vni → Set Vni) (own : Finset Vni → Finset Vni)
    (hf : ∀ w, records p (f w).2 = ((records p w).1, registered (records p w).2))
    (hg : ∀ w, records p (g w).2 = (own (records p w).1, (records p w).2))
    (hagree : ∀ v, Agree v → Agree (own v.1, registered v.2)) (hk : ∀ b, Mirrors p (k b)) :
    Mirrors p (do
      let b ← writing l f
      writing l' g
      k b) := by
  intro v hv
  have hfirst : Follows (owner (records p)) (fun v' _ ↦ v' = (v.1, registered v.2))
      (writing l f : Code β) v :=
    follows_owner_writing (fun w hw ↦ by rw [hf, hw]) fun _ ↦ rfl
  have hsecond : Follows (owner (records p)) (fun v' _ ↦ v' = (own v.1, registered v.2))
      (writing l' g : Code Unit) (v.1, registered v.2) :=
    follows_owner_writing (fun w hw ↦ by rw [hg, hw]) fun _ ↦ rfl
  exact hfirst.andThen fun b ↦ hsecond.andThen fun _ ↦ hk b _ (hagree v hv)

theorem records_addSubscriber (vni : Vni) (w : World) :
    records p (addSubscriber p.remoteAddr vni w).2 =
      ((records p w).1, insert vni (records p w).2) := by
  have hlisted : {v | p.remoteAddr ∈ valueAt (addSubscriber p.remoteAddr vni w).2.mb.subscribers v} =
      insert vni {v | p.remoteAddr ∈ valueAt w.mb.subscribers v} := by
    ext v
    change p.remoteAddr ∈ valueAt (addSubscriber p.remoteAddr vni w).2.mb.subscribers v ↔
      v = vni ∨ p.remoteAddr ∈ valueAt w.mb.subscribers v
    rw [subscribers_addSubscriber]
    split
    · next hv => simp [hv]
    · next hv => simp [hv]
  rw [records, hlisted]
  rfl

theorem records_removeSubscriber (vni : Vni) (w : World) :
    records p (removeSubscriber p.remoteAddr vni w).2 =
      ((records p w).1, (records p w).2 \ {vni}) := by
  have hlisted :
      {v | p.remoteAddr ∈ valueAt (removeSubscriber p.remoteAddr vni w).2.mb.subscribers v} =
        {v | p.remoteAddr ∈ valueAt w.mb.subscribers v} \ {vni} := by
    ext v
    change p.remoteAddr ∈ valueAt (removeSubscriber p.remoteAddr vni w).2.mb.subscribers v ↔
      p.remoteAddr ∈ valueAt w.mb.subscribers v ∧ v ≠ vni
    rw [subscribers_removeSubscriber]
    split
    · next hv => simp [hv]
    · next hv => simp [hv]
  rw [records, hlisted, cell_removeSubscriber]
  rfl

theorem records_forgetSubscriber (vnis : Finset Vni) (w : World) :
    records p (w.modifyMb fun mb ↦
      { mb with subscribers := forgetSubscriber p.remoteAddr vnis mb.subscribers }) =
      ((records p w).1, (records p w).2 \ vnis) := by
  have hlisted :
      {v | p.remoteAddr ∈ valueAt (forgetSubscriber p.remoteAddr vnis w.mb.subscribers) v} =
        {v | p.remoteAddr ∈ valueAt w.mb.subscribers v} \ vnis := by
    ext v
    change p.remoteAddr ∈ valueAt (forgetSubscriber p.remoteAddr vnis w.mb.subscribers) v ↔
      p.remoteAddr ∈ valueAt w.mb.subscribers v ∧ v ∉ vnis
    rw [valueAt_forgetSubscriber]
    split
    · next hv => simp [hv]
    · next hv => simp [hv]
  rw [records, World.modifyMb_mb, hlisted]
  rfl

theorem records_modifyCell (f : PeerCell → PeerCell) (w : World) :
    records p (w.modifyCell p.id f) =
      ((f (w.cell p.id)).subscribedVnisRemote, (records p w).2) := by
  rw [records, World.modifyCell_cell]
  rfl

/-- The cleanup takes the address out of the VNIs that the peer has recorded, which are all. -/
theorem follows_dropSubscriptions (hv : Agree v) :
    Follows (owner (records p)) (fun v' _ ↦ v' = (∅, ∅)) p.dropSubscriptions v := by
  have hquiet (v : Finset Vni × Set Vni) := @quiet_owner _ Lock World InternalUpdate (records p) v
  have hall : v.2 = v.1 := Set.ext fun vni ↦ (hv vni).symm
  refine ((hquiet v).acquires trivial).andThen fun _ ↦ ?_
  have hlook : Follows (owner (records p)) (fun v' a ↦ v' = v ∧ a = v.1)
      (gets fun w : World ↦ (w.cell p.id).subscribedVnisRemote : Code (Finset Vni)) v :=
    .gets fun s hs ↦ ⟨v, hs, rfl, congrArg Prod.fst hs⟩
  refine hlook.bind fun v' remoteSubs hlooked ↦ ?_
  obtain ⟨rfl, rfl⟩ := hlooked
  by_cases hempty : v'.1 = ∅
  · rw [if_pos hempty]
    have hnone : v' = (∅, ∅) := by
      rw [hempty, Finset.coe_empty] at hall
      exact Prod.ext hempty hall
    refine ((hquiet v').releases trivial).mono fun v _ heq ↦ ?_
    exact heq.trans hnone
  · rw [if_neg hempty]
    have hforget : Follows (owner (records p)) (fun v _ ↦ v = (v'.1, ∅))
        (modify fun w : World ↦ w.modifyMb fun mb ↦ { mb with
          subscribers := forgetSubscriber p.remoteAddr v'.1 mb.subscribers } : Code Unit) v' := by
      refine follows_owner (fun w hw ↦ ?_) rfl
      rw [records_forgetSubscriber, hw, hall, Set.sdiff_self]
    have hclear : Follows (owner (records p)) (fun v _ ↦ v = (∅, ∅))
        (modify fun w : World ↦ w.modifyCell p.id fun c ↦
          { c with subscribedVnisRemote := ∅ } : Code Unit) (v'.1, ∅) := by
      refine follows_owner (fun w hw ↦ ?_) rfl
      rw [records_modifyCell, hw]
    refine ((hquiet v').acquires trivial).andThen fun _ ↦ hforget.andThen fun _ ↦ ?_
    refine hclear.andThen fun _ ↦ ((hquiet (∅, ∅)).releases trivial).andThen fun _ ↦ ?_
    exact (hquiet (∅, ∅)).releases trivial

theorem agree_empty : Agree (∅, ∅) := fun vni ↦ by simp

theorem composes_mirrors : p.Composes fun _ t ↦ Mirrors p t where
  ret a := mirrors_of_same (.ret a)
  bind := Mirrors.bind
  acquire l m := mirrors_of_same (.acquire l m)
  release l m := mirrors_of_same (.release l m)
  gets f := mirrors_of_same (.gets f)
  sendMessage msg := mirrors_of_same (.update fun s ↦ same_sent s msg)
  signal b := mirrors_of_same (.modify fun s ↦ same_modifyCell s fun _ ↦ rfl)
  role b := mirrors_of_same (.modify fun s ↦ same_modifyCell s fun _ ↦ rfl)
  enter newState := mirrors_of_same (.modify fun s ↦ same_modifyCell s fun _ ↦ rfl)
  send u := mirrors_of_same (.sendOn fun _ ↦ rfl)
  update action vni dest nh :=
    mirrors_of_same (.update fun s ↦ same_tableOnly (tableOnly_applyUpdate s ..))
  removeRoutes ord := mirrors_of_same (.update fun _ ↦ rfl)
  subscribe vni k hk := by
    have hrecord (w : World) : records p (w.modifyCell p.id fun c ↦
        { c with subscribedVnisRemote := insert vni c.subscribedVnisRemote }) =
        (insert vni (records p w).1, (records p w).2) := records_modifyCell _ w
    refine mirrors_both (insert vni) (insert vni) (records_addSubscriber vni) hrecord
      (fun v hv v' ↦ ?_) hk
    rw [Finset.mem_insert, Set.mem_insert_iff, hv v']
  unsubscribe vni k hk := by
    have hrecord (w : World) : records p (w.modifyCell p.id fun c ↦
        { c with subscribedVnisRemote := c.subscribedVnisRemote.erase vni }) =
        ((records p w).1.erase vni, (records p w).2) := records_modifyCell _ w
    refine mirrors_both (· \ {vni}) (·.erase vni) (records_removeSubscriber vni) hrecord
      (fun v hv v' ↦ ?_) hk
    rw [Finset.mem_erase, hv v', and_comm]
    rfl
  dropSubscriptions v hv := (follows_dropSubscriptions hv).mono fun v' _ heq ↦ heq ▸ agree_empty

theorem follows_cleanupPeerState (ord : HashOrder) (hv : Agree v) :
    Follows (owner (records p)) (fun v' _ ↦ v' = (∅, ∅)) (p.cleanupPeerState ord) v := by
  have hbefore : Mirrors p (do
      acquire .metalbondState .read
      let removed ← removeRoutesFromPeer ord p.remoteAddr
      sendRemovals p.remoteAddr removed : Code Unit) :=
    composes_mirrors.bind (composes_mirrors.acquire .metalbondState .read) fun _ ↦
      composes_mirrors.bind (composes_mirrors.removeRoutes ord) fun removed ↦
        composes_mirrors.sendRemovals removed
  have hafter {v : Finset Vni × Set Vni} (hv : Agree v) : Follows (owner (records p))
      (fun v' _ ↦ v' = (∅, ∅)) (do p.dropSubscriptions; release .metalbondState .read : Code Unit)
      v :=
    (follows_dropSubscriptions hv).andThen fun _ ↦ quiet_owner.releases trivial
  exact (hbefore v hv).bind fun v' _ hv' ↦ hafter hv'

end Own

section Runs

variable {ι κ : Type} [DecidableEq ι] [DecidableEq κ] {peers : ι → Peer}
variable {c c' : Pool (Actor ι κ) Lock World InternalUpdate Unit} {i : ι}

theorem mirrored_iff {p : Peer} {s : Node} : Mirrored p s ↔ Agree (records p s.world) := .rfl

theorem unlisted_of_records {p : Peer} {s : Node} (h : records p s.world = (∅, ∅)) :
    Unlisted p s := fun vni hlisted ↦ by
  have hmem : vni ∈ (records p s.world).2 := hlisted
  rw [h] at hmem
  exact hmem

omit [DecidableEq ι] [DecidableEq κ] in
theorem respects_work (hids : Function.Injective fun i ↦ (peers i).id)
    (haddrs : Function.Injective fun i ↦ (peers i).remoteAddr) (i : ι) :
    Pool.Respects (records (peers i)) Agree (.connection i) (Work (κ := κ) peers) where
  own o t v hwork hv := by
    have hparts := @composes_mirrors (peers i)
    have hmirrors : Mirrors (peers i) t := by
      cases hwork with
      | connect _ ord =>
        refine .bind (mirrors_of_same same_insertPeer) fun _ ↦ ?_
        exact .bind (hparts.startPeer ord) fun _ ↦ hparts.ret ()
      | round _ ord r t =>
        have htake : Mirrors (peers i) (modify (peers i).takeOutgoing : Code Unit) :=
          mirrors_of_same (.modify same_takeOutgoing)
        exact .bind (hparts.selectRound ord htake r t) fun _ ↦ hparts.ret ()
      | disconnect => exact mirrors_of_same same_disconnect
    exact hmirrors v hv
  others j o t hj hwork := by
    cases hwork with
    | connect j ord =>
      have hne : j ≠ i := fun h ↦ hj (by rw [h])
      have hacts := acts_same (hids.ne hne.symm) (haddrs.ne hne)
      exact .bind same_insertPeer fun _ ↦ .bind (hacts.composes.startPeer ord) fun _ ↦ .ret ()
    | round j ord r t =>
      have hne : j ≠ i := fun h ↦ hj (by rw [h])
      have hacts := acts_same (hids.ne hne.symm) (haddrs.ne hne)
      exact .bind (hacts.composes.selectRound ord (.modify same_takeOutgoing) r t) fun _ ↦ .ret ()
    | disconnect j => exact same_disconnect
    | call k h => exact .bind (same_call h) fun _ ↦ .ret ()
    | distribute ord u => exact .bind (same_distribute ord u) fun _ ↦ .ret ()

omit [DecidableEq ι] [DecidableEq κ] in
theorem Fresh.owned (h : Fresh peers c) (i : ι) :
    Pool.Owned (records (peers i)) Agree (.connection i) c := by
  have hrecords : records (peers i) c.shared.world = (∅, ∅) := by
    have hcell : c.shared.world.cell (peers i).id = .new := h.cells i
    rw [records, hcell, h.subscribers]
    simp [PeerCell.new]
  refine ⟨?_, fun a _ ↦ ?_⟩
  · obtain ⟨u, hu⟩ := h.idle (.connection i)
    rw [hu, hrecords]
    exact agree_empty
  · obtain ⟨u, hu⟩ := h.idle a
    rw [hu]
    exact .ret u

/-- Whenever the task of a peer has returned from a handler, the two records of what the peer has
subscribed to agree, wherever the other tasks are. So a cleanup that comes to its end, by itself
or among the other tasks, leaves the peer listed nowhere. -/
theorem records_mirror (hids : Function.Injective fun i ↦ (peers i).id)
    (haddrs : Function.Injective fun i ↦ (peers i).remoteAddr)
    {c₀ : Pool (Actor ι κ) Lock World InternalUpdate Unit} (hfresh : Fresh peers c₀)
    (hrun : Run (Pool.Step (Work peers)) c₀ c) (hidle : c.Idle (.connection i)) :
    Mirrored (peers i) c.shared ∧
      (∀ ord, Unlisted (peers i) (finish ((peers i).cleanupPeerState ord) c.shared).2) ∧
      ∀ ord c', Run (Pool.Step (WorkBut peers i))
        (c.set (.connection i) ⟨c.held (.connection i), (peers i).cleanupPeerState ord⟩ c.shared)
        c' → c'.Idle (.connection i) → Unlisted (peers i) c'.shared := by
  have howned := (hfresh.owned i).run (respects_work hids haddrs i) hrun
  have hagree : Agree (records (peers i) c.shared.world) := howned.good hidle
  have hcleanup (ord : HashOrder) := @follows_cleanupPeerState (peers i) _ ord hagree
  refine ⟨mirrored_iff.mpr hagree, fun ord ↦ unlisted_of_records ?_, fun ord c' hrun' hidle' ↦ ?_⟩
  · exact (hcleanup ord).finish rfl
  · have hcleaning : Pool.Owned (records (peers i)) (· = (∅, ∅)) (.connection i) (c.set
        (.connection i) ⟨c.held (.connection i), (peers i).cleanupPeerState ord⟩ c.shared) :=
      howned.set_own (hcleanup ord)
    have hothers : Pool.Respects (records (peers i)) (· = (∅, ∅)) (.connection i)
        (WorkBut (κ := κ) peers i) := by
      refine ⟨fun o t v h _ ↦ ?_, fun a o t ha h ↦ ?_⟩
      · exact absurd rfl h.1
      · exact (respects_work hids haddrs i).others a o t ha h.2
    exact unlisted_of_records ((hcleaning.run hothers hrun').good hidle')

end Runs

def acceptors (b : Bool) : Peer := Sample.peer (cond b 1 2) .incoming

def acceptor : Peer := acceptors true

def tasks (s : Node) : Pool (Actor Bool Unit) Lock World InternalUpdate Unit :=
  ⟨fun _ ↦ ⟨[], .ret ()⟩, s⟩

def subscribedNode : Node := acceptor.subscribed 7 (Sample.node true)

theorem exec_subscribed : exec [] (acceptor.process .toList (.subscribe ⟨7⟩)) (Sample.node true) =
    .done (.ok ()) [] subscribedNode := by
  have hnone : acceptor.snapshotFor .toList 7 (Sample.node true) = [] := by
    refine List.eq_nil_iff_forall_not_mem.mpr fun r hr ↦ ?_
    exact ((mem_snapshotFor _ _ _).mp hr).2.1 (RouteTable.sources_new r)
  have hunlisted : acceptor.remoteAddr ∉ valueAt (Sample.node true).world.mb.subscribers 7 := by
    rw [show (Sample.node true).world.mb.subscribers = ∅ from rfl, valueAt_empty]
    exact Finset.notMem_empty _
  have hdone := exec_processSubscribe .toList acceptor (Sample.node true) ⟨7⟩
  rw [if_neg hunlisted, hnone] at hdone
  refine hdone.trans ?_
  simp only [PeerCell.sendRoutes, withCell_cellOf]
  rfl

theorem records_mirror_sample : Mirrored acceptor subscribedNode ∧
    ∀ ord, Unlisted acceptor (finish (acceptor.cleanupPeerState ord) subscribedNode).2 := by
  let c := tasks (Sample.node true)
  have hfresh : Fresh acceptors c :=
    ⟨fun _ ↦ ⟨(), rfl⟩, fun _ ↦ rfl, fun _ ↦ rfl, rfl⟩
  have hids : Function.Injective fun b ↦ (acceptors b).id := by decide
  have haddrs : Function.Injective fun b ↦ (acceptors b).remoteAddr := by decide
  let r : Round := ⟨false, .frame (.message (.subscribe ⟨7⟩)), 0, 0⟩
  have hround : exec [] (acceptor.selectRound .toList r .off) (Sample.node true) =
      .done (.again .off) [] subscribedNode := by
    refine Connection.exec_selectRound_kept rfl rfl exec_subscribed ?_
    rw [subscribedNode, cellOf_subscribed]
    decide
  have hrun : Run (Pool.Step (Work acceptors)) c
      (c.set (.connection true) ⟨[], .ret ()⟩ subscribedNode) := by
    refine Pool.run_whole (fun _ ↦ rfl) ⟨(), rfl⟩ (.round true .toList r .off) ?_
    refine (exec_bind ..).trans ?_
    rw [show exec [] ((acceptors true).selectRound .toList r .off) c.shared = _ from hround]
    rfl
  have hmirror := records_mirror hids haddrs hfresh hrun (i := true) ⟨(), by simp⟩
  exact ⟨hmirror.1, hmirror.2.1⟩

end MetalBond.SubscriptionRecords
