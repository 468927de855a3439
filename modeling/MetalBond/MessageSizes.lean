import MetalBond.Async.Run
import MetalBond.Framing
import MetalBond.RoundExec

namespace MetalBond.MessageSizes

open Async Task Streams MetalBondCodec Peer

/-- The calls that build a message, with what each is given besides the configuration. -/
inductive SendCall
  | hello (isServer : Bool)
  | keepalive
  | subscribe (vni : Vni)
  | unsubscribe (vni : Vni)
  | update (action : UpdateAction) (vni : Vni) (dest : Destination) (nh : NextHop)

namespace SendCall

def code (self : Peer) : SendCall → Code (Except Error Unit)
  | hello isServer => self.sendHello isServer
  | keepalive => self.sendKeepalive
  | subscribe vni => self.sendSubscribe vni
  | unsubscribe vni => self.sendUnsubscribe vni
  | update action vni dest nh => self.sendUpdate action vni dest nh

def message (config : Config) : SendCall → GeneratedMessage
  | hello isServer => .hello ⟨config.keepaliveInterval.asSecs.toUInt32, isServer⟩
  | keepalive => .keepalive
  | subscribe vni => .subscribe ⟨vni⟩
  | unsubscribe vni => .unsubscribe ⟨vni⟩
  | update action vni dest nh => updateMessage action vni dest nh

theorem code_eq (self : Peer) (call : SendCall) :
    call.code self = self.sendMessage (call.message self.config) := by
  cases call <;> rfl

end SendCall

theorem fits_message (config : Config) (call : SendCall) :
    Fits protobuf (call.message config) := by
  have hmax : maxMessageLen = 1188 := rfl
  cases call with
  | hello isServer => exact (short_protobuf.hello _).trans (by omega)
  | keepalive => exact Nat.zero_le _
  | subscribe vni => exact (short_protobuf.subscription _).trans (by omega)
  | unsubscribe vni => exact (short_protobuf.subscription _).trans (by omega)
  | update action vni dest nh => exact fits_updateMessage compact_protobuf action vni dest nh

/-- The encoder accepts the message, and its header announces exactly the length of the body. -/
def WrittenExactly (m : GeneratedMessage) : Prop :=
  let body := (m.intoTypedBytes protobuf).2
  body.length ≤ maxMessageLen ∧ ∀ dst, ∃ high low, announced high low = body.length ∧
    (encode protobuf m).on dst =
      (.ok (), dst ++ [metalbondVersion, high, low, (m.intoTypedBytes protobuf).1.toU8] ++ body)

theorem writtenExactly_of_fits {m : GeneratedMessage} (h : Fits protobuf m) : WrittenExactly m := by
  refine ⟨h, fun dst ↦ ⟨_, _, announced_length h, ?_⟩⟩
  rw [encode_of_fits h, List.append_assoc]
  rfl

structure Outbound where
  node : Node
  buffer : Bytes

def Outbound.queue (self : Peer) (o : Outbound) : List GeneratedMessage :=
  (self.cellOf o.node).tx.queue

/-- A call puts a message on the queue if it can, the connection takes the first one off and
encodes it, the socket takes bytes, or the node does anything else that leaves the queue as it is. -/
inductive Step (self : Peer) : Outbound → Outbound → Prop
  | call (call : SendCall) (held : List (Guard Lock)) (o : Outbound) :
    Step self o ⟨(exec held (call.code self) o.node).shared, o.buffer⟩
  | write (o : Outbound) (m : GeneratedMessage) (rest : List GeneratedMessage) (buffer : Bytes) :
    o.queue self = m :: rest → (encode protobuf m).on o.buffer = (.ok (), buffer) →
    Step self o ⟨self.withCell o.node (self.cellOf o.node).dequeued, buffer⟩
  | flush (node : Node) (sent buffer : Bytes) : Step self ⟨node, sent ++ buffer⟩ ⟨node, buffer⟩
  | others (o : Outbound) (node : Node) :
    (self.cellOf node).tx.queue = (self.cellOf o.node).tx.queue → Step self o ⟨node, o.buffer⟩

def Built (self : Peer) (o : Outbound) : Prop :=
  ∀ m ∈ o.queue self, ∃ call : SendCall, m = call.message self.config

theorem Built.step {self : Peer} {o o' : Outbound} (hstep : Step self o o') (h : Built self o) :
    Built self o' := by
  cases hstep with
  | call call held o =>
    intro m hm
    rw [Outbound.queue, SendCall.code_eq, exec_sendMessage, Outcome.shared_done,
      cellOf_withCell] at hm
    cases hsend : ((self.cellOf o.node).trySend (call.message self.config)) with
    | mk r c =>
      rw [hsend] at hm
      cases r with
      | ok u =>
        rw [PeerCell.queue_of_trySend hsend, List.mem_append, List.mem_singleton] at hm
        exact hm.elim (h m) fun heq ↦ ⟨call, heq⟩
      | error e =>
        rw [PeerCell.queue_of_trySend_error hsend] at hm
        exact h m hm
  | write o m rest buffer hqueue hencode =>
    intro m' hm'
    rw [Outbound.queue, cellOf_withCell, PeerCell.queue_dequeued hqueue] at hm'
    exact h m' (hqueue ▸ List.mem_cons_of_mem m hm')
  | flush node sent buffer => exact h
  | others o node hqueue =>
    intro m hm
    rw [Outbound.queue, hqueue] at hm
    exact h m hm

/-- Whatever a peer is configured with and asked to send, its messages are far below the limit
of the encoder, and so is every message that its connection takes from its queue. -/
theorem limit_unreachable {self : Peer} {o o' : Outbound} (hnew : o.queue self = [])
    (hrun : Run (Step self) o o') :
    (∀ call : SendCall, call.code self = self.sendMessage (call.message self.config) ∧
      WrittenExactly (call.message self.config)) ∧
    ∀ m ∈ o'.queue self, WrittenExactly m := by
  have hcall (call : SendCall) : WrittenExactly (call.message self.config) :=
    writtenExactly_of_fits (fits_message self.config call)
  have hinit : Built self o := by
    intro m hm
    rw [hnew] at hm
    cases hm
  refine ⟨fun call ↦ ⟨call.code_eq self, hcall call⟩, fun m hm ↦ ?_⟩
  obtain ⟨call, rfl⟩ := (hrun.invariant hinit fun _ _ hinv hstep ↦ hinv.step hstep) m hm
  exact hcall call

theorem limit_unreachable_sample :
    let self := Sample.peer 1 .outgoing
    let o : Outbound := ⟨(exec [] (self.sendHello false) (Sample.node false)).shared, []⟩
    (∀ call : SendCall, call.code self = self.sendMessage (call.message self.config) ∧
      WrittenExactly (call.message self.config)) ∧
    ∀ m ∈ o.queue self, WrittenExactly m :=
  limit_unreachable (o := ⟨Sample.node false, []⟩) rfl (Run.cons (.call (.hello false) [] _) .refl)

end MetalBond.MessageSizes
