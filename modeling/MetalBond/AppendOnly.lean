import MetalBond.HandlePeer
import MetalBond.NodeCode
import MetalBond.QueueGrowth

namespace MetalBond

open Async Task Collections HashMap

def Appends (p : Peer) (s s' : Node) : Prop :=
  (p.cellOf s).tx.history <+: (p.cellOf s').tx.history

variable {p : Peer} {s s' : Node}

instance : Std.Refl (Appends p) := ⟨fun _ ↦ List.prefix_rfl⟩

theorem appends_of_history (h : (p.cellOf s').tx.history = (p.cellOf s).tx.history) :
    Appends p s s' := by
  rw [Appends, h]

theorem Fills.appends (h : Fills p s s') : Appends p s s' := by
  obtain ⟨msgs, h⟩ := h
  rw [Appends, h, Channel.history_pushAll]
  exact List.prefix_append _ _

theorem appends_modifyCell (q : Peer) (s : Node) {f : PeerCell → PeerCell}
    (hf : ∀ c, (f c).tx.history = c.tx.history) :
    Appends p s { s with world := s.world.modifyCell q.id f } := by
  refine appends_of_history ?_
  by_cases hid : p.id = q.id
  · simp only [Peer.cellOf, hid, World.modifyCell_cell, hf]
  · simp only [Peer.cellOf, World.modifyCell_cell_of_ne _ hid]

namespace Peer

variable (q : Peer)

theorem history_takeOutgoing (s : Node) : Appends p s { s with world := q.takeOutgoing s.world } := by
  unfold takeOutgoing
  cases hrecv : (s.world.cell q.id).tx.recv with
  | none => exact Std.Refl.refl s
  | some x =>
    obtain ⟨msg, tx⟩ := x
    refine appends_of_history ?_
    by_cases hid : p.id = q.id
    · have hcell : (p.cellOf s).tx.recv = some (msg, tx) := by
        rw [cellOf, hid]
        exact hrecv
      simp only [cellOf, hid, World.modifyCell_cell]
      exact (Mailbox.history_of_recv hrecv).1
    · simp only [cellOf, World.modifyCell_cell_of_ne _ hid]

theorem acts_appends : q.Acts (Appends p) :=
  (acts_fills q).mono fun _ _ ↦ Fills.appends

end Peer

section Calls

variable (ord : HashOrder) (parse : String → Option SocketAddr)

section Subscriptions

variable {R : Node → Node → Prop} [Std.Refl R]

theorem confined_notifyEstablished {send : Peer → Code (Except Error Unit)}
    (hsend : ∀ q, Confined R (send q)) (peers : List Peer) :
    Confined R (notifyEstablished send peers) := by
  induction peers with
  | nil => exact .ret ()
  | cons q rest ih =>
    refine .bind (.reading ..) fun state ↦ ?_
    split
    · exact .bind (hsend q) fun _ ↦ ih
    · exact ih

variable (hcall : ∀ (s : Node) vni, R s { s with
  world := { s.world with client := (s.world.client.call (.clearRoutesForVni vni)).2 } })

include hcall

theorem confined_announceSubscription (vni : Vni) {send : Peer → Code (Except Error Unit)}
    (hsend : ∀ q, Confined R (send q)) (peers : List Peer) :
    Confined R (announceSubscription vni send peers) := by
  refine .bind (confined_notifyEstablished hsend peers) fun _ ↦ .bind (.acquire ..) fun _ ↦ ?_
  exact .bind (.update fun s ↦ hcall s _) fun _ ↦ .bind (.release ..) fun _ ↦ .ret _

variable (hsubs : ∀ (s : Node) (f : Finset Vni → Finset Vni), R s { s with
  world := s.world.modifyMb fun mb ↦
    { mb with mySubscriptions := f mb.mySubscriptions } })
variable (hsent : ∀ q s msg, R s (Peer.sent q s msg))

include hsubs hsent

theorem confined_subscribe (vni : Vni) : Confined R (subscribe ord vni) := by
  refine .bind (.acquire ..) fun _ ↦ .bind (.gets _) fun isServer ↦ ?_
  split
  · exact .bind (.release ..) fun _ ↦ .ret _
  · refine .bind (.update fun s ↦ hsubs s (insert vni)) fun inserted ↦ ?_
    split
    · refine .bind (.gets _) fun peers ↦ .bind (.release ..) fun _ ↦ ?_
      exact confined_announceSubscription hcall vni (fun q ↦ .update fun s ↦ hsent q s _) peers
    · exact .bind (.release ..) fun _ ↦ .ret _

theorem confined_unsubscribe (vni : Vni) : Confined R (unsubscribe ord vni) := by
  refine .bind (.acquire ..) fun _ ↦ .bind (.gets _) fun isServer ↦ ?_
  split
  · exact .bind (.release ..) fun _ ↦ .ret _
  · refine .bind (.update fun s ↦ hsubs s (·.erase vni)) fun removed ↦ ?_
    split
    · refine .bind (.gets _) fun peers ↦ .bind (.release ..) fun _ ↦ ?_
      exact confined_announceSubscription hcall vni (fun q ↦ .update fun s ↦ hsent q s _) peers
    · exact .bind (.release ..) fun _ ↦ .ret _

end Subscriptions

theorem fills_subscribe (vni : Vni) : Confined (Fills p) (subscribe ord vni) :=
  confined_subscribe ord (fun _ _ ↦ fills_of_tx rfl) (fun _ _ ↦ fills_of_tx rfl)
    (fun q s msg ↦ fills_sent q s msg) vni

theorem fills_unsubscribe (vni : Vni) : Confined (Fills p) (unsubscribe ord vni) :=
  confined_unsubscribe ord (fun _ _ ↦ fills_of_tx rfl) (fun _ _ ↦ fills_of_tx rfl)
    (fun q s msg ↦ fills_sent q s msg) vni

theorem fills_withdrawRoute (vni : Vni) (dest : Destination) (nh : NextHop) :
    Confined (Fills p) (withdrawRoute vni dest nh) := by
  refine confined_withdrawRoute (fun s ↦ fills_of_tx ?_) fun _ ↦ fills_of_tx rfl
  unfold removeAnnouncement
  split <;> rfl

section Peers

variable {R : Node → Node → Prop} [Std.Refl R]

theorem confined_addPeer
    (hspawn : ∀ (s : Node) addr, R s { s with world := spawnManager addr s.world })
    (serverAddr : String) : Confined R (addPeer parse serverAddr) := by
  unfold addPeer
  split
  · exact .ret _
  · refine .bind (.reading ..) fun isServer ↦ ?_
    split
    · exact .ret _
    · refine .bind (.acquire ..) fun _ ↦ .bind (.gets _) fun known ↦ ?_
      split
      · exact .bind (.release ..) fun _ ↦ .ret _
      · refine .bind (.modify fun s ↦ hspawn s _) fun _ ↦ ?_
        exact .bind (.release ..) fun _ ↦ .ret _

omit [Std.Refl R] in
theorem confined_removePeer
    (habort : ∀ (s : Node) addr, R s { s with world := abortManager addr s.world })
    (hshutdown : ∀ (s : Node) addr, R s { s with world := shutdownPeer addr s.world })
    (hremove : ∀ (s : Node) addr, R s { s with world := s.world.modifyMb fun mb ↦
      { mb with routeTable := (mb.routeTable.removeRoutesFromPeer ord addr).2 } })
    (hsend : ∀ (s : Node) u, R s { s with chan := (s.chan.send u).2 }) (addrStr : String) :
    Confined R (removePeer parse ord addrStr) := by
  have hremovals : ∀ source routes, Confined R (Peer.sendRemovals source routes) := by
    intro source routes
    induction routes with
    | nil => exact .ret ()
    | cons r rest ih => exact .bind (.sendOn fun s ↦ hsend s _) fun _ ↦ ih
  unfold removePeer
  split
  · exact .ret _
  · next addr _ =>
    refine .bind (.acquire ..) fun _ ↦ .bind (.modify fun s ↦ habort s addr) fun _ ↦ ?_
    refine .bind (.modify fun s ↦ hshutdown s addr) fun _ ↦ ?_
    refine .bind (.update fun s ↦ hremove s addr) fun removed ↦ ?_
    exact .bind (hremovals addr removed) fun _ ↦ .bind (.release ..) fun _ ↦ .ret _

end Peers

theorem fills_addPeer (serverAddr : String) : Confined (Fills p) (addPeer parse serverAddr) :=
  confined_addPeer parse (fun _ _ ↦ fills_of_tx rfl) serverAddr

theorem fills_removePeer (addrStr : String) : Confined (Fills p) (removePeer parse ord addrStr) := by
  refine confined_removePeer ord parse (fun s addr ↦ fills_of_tx ?_) (fun s addr ↦ ?_)
    (fun _ _ ↦ fills_of_tx rfl) (fun _ _ ↦ fills_of_tx rfl) addrStr
  · unfold abortManager
    split <;> rfl
  · unfold shutdownPeer
    split
    · exact Std.Refl.refl s
    · exact fills_modifyCell _ s fun _ ↦ rfl

end Calls

end MetalBond
