import MetalBond.Async.Protocol
import MetalBond.NodeExec

namespace MetalBond

open Async Task Peer

section Quiet

variable {Stage : Type} {P : Protocol Stage Lock World InternalUpdate} {σ : Stage}
variable {R : Node → Node → Prop} {uses : Guard Lock → Prop}

def IgnoresTx (R : Node → Node → Prop) (peer : Peer) : Prop :=
  ∀ s msg, R s (peer.withCell s ((peer.cellOf s).trySend msg).2)

theorem quiet_sendMessage (h : Quiet P σ R uses) {peer : Peer} (hR : IgnoresTx R peer)
    (msg : GeneratedMessage) :
    Follows P (fun σ' _ ↦ σ' = σ) (peer.sendMessage msg) σ :=
  h.update fun s ↦ hR s msg

variable [Std.Refl R]

theorem quiet_sourceIsServer (h : Quiet P σ R uses)
    (huses : ∀ id, uses (.isRemoteServer id, .read)) (source : Option SocketAddr) :
    Follows P (fun σ' _ ↦ σ' = σ) (sourceIsServer source) σ := by
  cases source with
  | none => exact h.gets _
  | some addr =>
    refine (h.gets _).andThen fun found ↦ ?_
    cases found with
    | none => exact .ret rfl
    | some source => exact h.reading (huses source.id) _

theorem quiet_forward (h : Quiet P σ R uses) (huses : ∀ id, uses (.isRemoteServer id, .read))
    (update : InternalUpdate) {peer : Peer} (hR : IgnoresTx R peer) :
    Follows P (fun σ' _ ↦ σ' = σ) (forward update peer) σ := by
  unfold forward
  split
  · exact .ret rfl
  · refine (quiet_sourceIsServer h huses _).andThen fun source ↦ ?_
    refine (h.reading (huses peer.id) _).andThen fun target ↦ ?_
    cases source && target with
    | true => exact .ret rfl
    | false => exact (quiet_sendMessage h hR _).andThen fun _ ↦ .ret rfl

theorem quiet_forwardAll (h : Quiet P σ R uses) (huses : ∀ id, uses (.isRemoteServer id, .read))
    (update : InternalUpdate) {peers : List Peer} (hR : ∀ peer ∈ peers, IgnoresTx R peer) :
    Follows P (fun σ' _ ↦ σ' = σ) (forwardAll update peers) σ := by
  induction peers with
  | nil => exact .ret rfl
  | cons peer rest ih =>
    have hpeer := hR peer List.mem_cons_self
    have hrest := ih fun p hp ↦ hR p (List.mem_cons_of_mem peer hp)
    exact (quiet_forward h huses update hpeer).andThen fun _ ↦ hrest

theorem quiet_notifyEstablished (h : Quiet P σ R uses) (huses : ∀ id, uses (.peerState id, .read))
    (hR : ∀ peer, IgnoresTx R peer) (msg : GeneratedMessage) (peers : List Peer) :
    Follows P (fun σ' _ ↦ σ' = σ) (notifyEstablished (·.sendMessage msg) peers) σ := by
  induction peers with
  | nil => exact .ret rfl
  | cons peer rest ih =>
    refine (h.reading (huses peer.id) _).andThen fun state ↦ ?_
    split
    · exact (quiet_sendMessage h (hR peer) msg).andThen fun _ ↦ ih
    · exact ih

end Quiet

end MetalBond
