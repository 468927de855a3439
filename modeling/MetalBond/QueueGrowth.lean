import MetalBond.PeerActs

namespace MetalBond

open Async Task Collections HashMap

def Fills (p : Peer) (s s' : Node) : Prop :=
  ∃ msgs, (p.cellOf s').tx.toChannel = (p.cellOf s).tx.toChannel.pushAll msgs

variable {p : Peer} {s s' : Node}

theorem fills_of_tx (h : (p.cellOf s').tx = (p.cellOf s).tx) : Fills p s s' :=
  ⟨[], by rw [h]; rfl⟩

instance : Std.Refl (Fills p) := ⟨fun _ ↦ fills_of_tx rfl⟩

instance : IsTrans Node (Fills p) := ⟨fun s s' s'' h h' ↦ by
  obtain ⟨msgs, h⟩ := h
  obtain ⟨msgs', h'⟩ := h'
  exact ⟨msgs ++ msgs', by rw [h', h, Channel.pushAll_append]⟩⟩

theorem Fills.hasRoom (h : Fills p s s') (hroom : p.HasRoom s') : p.HasRoom s := by
  obtain ⟨msgs, h⟩ := h
  have hlen := hroom.room
  have hclosed := hroom.connected
  rw [h] at hlen hclosed
  simp only [Channel.queue_pushAll, List.length_append, Channel.closed_pushAll] at hlen hclosed
  exact ⟨hclosed, by omega⟩

/-- When the queue only grows, a last state with room means room all the way. -/
theorem run_hasRoom {C : Type} {Step : C → C → Prop} {c c' : C} (view : C → Node)
    (hrun : Run (fun d d' ↦ Step d d' ∧ Fills p (view d) (view d')) c c')
    (hroom : p.HasRoom (view c')) :
    Run (fun d d' ↦ Step d d' ∧ p.HasRoom (view d)) c c' :=
  (hrun.toward view).mono fun _ _ h ↦ ⟨h.1, h.2.1.hasRoom hroom⟩

theorem Fills.received (h : Fills p s s') : p.received s <+: p.received s' := by
  obtain ⟨msgs, h⟩ := h
  refine ⟨msgs.filterMap GeneratedMessage.change?, ?_⟩
  simp only [Peer.received, h, Channel.history_pushAll, List.filterMap_append]

theorem Fills.not_told {d : Change Route} (h : Fills p s s') (hend : d ∉ p.received s')
    {log : List (Change Route)} : p.received s ≠ log ++ [d] := by
  intro heq
  have hmem : d ∈ p.received s := by
    rw [heq]
    exact List.mem_append_right _ List.mem_cons_self
  exact hend (h.received.subset hmem)

theorem fills_sent (q : Peer) (s : Node) (msg : GeneratedMessage) : Fills p s (q.sent s msg) := by
  by_cases hid : p.id = q.id
  · have hcell : p.cellOf (q.sent s msg) = ((p.cellOf s).trySend msg).2 := by
      simp only [Peer.sent, Peer.withCell, Peer.cellOf, hid, World.setCell_cell]
    rw [Fills, hcell, PeerCell.trySend]
    cases hsend : (p.cellOf s).tx.trySend msg with
    | ok tx => exact ⟨[msg], Mailbox.toChannel_of_trySend hsend⟩
    | error e => cases e <;> exact ⟨[], rfl⟩
  · have hcell : p.cellOf (q.sent s msg) = p.cellOf s := World.setCell_cell_of_ne _ hid _
    exact fills_of_tx (by rw [hcell])

theorem fills_modifyCell (q : Peer) (s : Node) {f : PeerCell → PeerCell}
    (hf : ∀ c, (f c).tx = c.tx) : Fills p s { s with world := s.world.modifyCell q.id f } := by
  refine fills_of_tx ?_
  by_cases hid : p.id = q.id
  · simp only [Peer.cellOf, hid, World.modifyCell_cell, hf]
  · simp only [Peer.cellOf, World.modifyCell_cell_of_ne _ hid]

theorem acts_fills (q : Peer) : q.Acts (Fills p) where
  refl := inferInstance
  sent := fills_sent q
  cell s _ hf := fills_modifyCell q s hf
  send _ _ := fills_of_tx rfl
  update s action vni dest nh := by
    have hcells := (Peer.tableOnly_applyUpdate s action vni dest nh (some q.remoteAddr)).cell_eq
    exact fills_of_tx (congrArg PeerCell.tx (congrFun hcells p.id))
  removeRoutes _ _ := fills_of_tx rfl
  subscribe _ _ := fills_of_tx rfl
  unsubscribe s vni := by
    have hcells := Peer.cell_removeSubscriber q.remoteAddr vni s.world
    exact fills_of_tx (congrArg PeerCell.tx (congrFun hcells p.id))
  forget _ _ := fills_of_tx rfl

section Distribution

variable {R : Node → Node → Prop} [Std.Refl R]

theorem confined_forwardAll (hsent : ∀ q s msg, R s (Peer.sent q s msg)) (u : InternalUpdate)
    (peers : List Peer) : Confined R (forwardAll u peers) := by
  have hsource : Confined R (sourceIsServer u.sourcePeer) := by
    cases u.sourcePeer with
    | none => exact .gets _
    | some addr =>
      refine .bind (.gets _) fun found ↦ ?_
      cases found with
      | none => exact .ret _
      | some source => exact .reading ..
  induction peers with
  | nil => exact .ret ()
  | cons q rest ih =>
    refine .bind ?_ fun _ ↦ ih
    unfold forward
    split
    · exact .ret ()
    · refine .bind hsource fun source ↦ .bind (.reading ..) fun target ↦ ?_
      split
      · exact .ret ()
      · exact .bind (.update fun s ↦ hsent q s _) fun _ ↦ .ret ()

theorem confined_notifySubscribers (hsent : ∀ q s msg, R s (Peer.sent q s msg)) (ord : HashOrder)
    (u : InternalUpdate) : Confined R (notifySubscribers ord u) := by
  refine .bind (.gets _) fun peers ↦ .bind (confined_forwardAll hsent u peers) fun _ ↦ ?_
  exact .bind (.release ..) fun _ ↦ .ret _

theorem confined_distribute {u : InternalUpdate}
    (hclient : ∀ s : Node,
      R s { s with world := { s.world with client := (s.world.client.call (clientCall u)).2 } })
    (hsent : ∀ q s msg, R s (Peer.sent q s msg)) (ord : HashOrder) :
    Confined R (distribute ord u) :=
  .bind (.acquire ..) fun _ ↦ .bind (.update hclient) fun _ ↦
    confined_notifySubscribers hsent ord u

end Distribution

section Announcing

variable {R : Node → Node → Prop} {vni : Vni} {dest : Destination} {nh : NextHop}

theorem confined_announceRoute
    (hadd : ∀ s : Node, R s { s with world := addAnnouncement vni dest nh s.world })
    (hsend : ∀ s : Node, R s { s with chan := (s.chan.send ⟨.add, vni, dest, nh, none⟩).2 }) :
    Confined R (announceRoute vni dest nh) := by
  refine .bind (.acquire ..) fun _ ↦ .bind (.modify hadd) fun _ ↦ ?_
  exact .bind (.sendOn hsend) fun sent ↦ .bind (.release ..) fun _ ↦ .ret _

theorem confined_withdrawRoute
    (hremove : ∀ s : Node, R s { s with world := (removeAnnouncement vni dest nh s.world).2 })
    (hsend : ∀ s : Node, R s { s with chan := (s.chan.send ⟨.remove, vni, dest, nh, none⟩).2 }) :
    Confined R (withdrawRoute vni dest nh) := by
  refine .bind (.acquire ..) fun _ ↦ .bind (.update hremove) fun remaining ↦ ?_
  match remaining with
  | .ok 0 =>
    exact .bind (.sendOn hsend) fun sent ↦ .bind (.release ..) fun _ ↦ .ret _
  | .ok (n + 1) => exact .bind (.release ..) fun _ ↦ .ret _
  | .error e => exact .bind (.release ..) fun _ ↦ .ret _

end Announcing

theorem fills_distribute (ord : HashOrder) (u : InternalUpdate) :
    Confined (Fills p) (distribute ord u) :=
  confined_distribute (R := Fills p) (fun _ ↦ fills_of_tx rfl) fills_sent ord

theorem fills_announceRoute (vni : Vni) (dest : Destination) (nh : NextHop) :
    Confined (Fills p) (announceRoute vni dest nh) :=
  confined_announceRoute (fun _ ↦ fills_of_tx rfl) fun _ ↦ fills_of_tx rfl

end MetalBond
