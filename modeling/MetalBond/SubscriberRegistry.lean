import MetalBond.Async.Finish
import MetalBond.Async.Run
import MetalBond.ConnectionTasks
import MetalBond.KeepaliveTimeout
import MetalBond.SubscriptionRecords

namespace MetalBond.SubscriberRegistry

open Async Task Collections HashMap Peer

inductive Event (ι : Type)
  | connect (i : ι)
  | message (i : ι) (msg : GeneratedMessage)
  | disconnect (i : ι)

section Events

variable {ι : Type} (ord : HashOrder) (peers : ι → Peer)

def Event.code : Event ι → Code Unit
  | connect i => do
    (peers i).create
    insertPeer (peers i)
    let _ ← (peers i).startPeer ord
    return ()
  | message i msg => do
    let _ ← (peers i).process ord msg
    return ()
  | disconnect i => do
    (peers i).setState ord .closed
    erasePeer (peers i).remoteAddr

def after (e : Event ι) (s : Node) : Node := (finish (e.code ord peers) s).2

/-- The peer is nowhere the only subscriber. -/
def Shared (self : Peer) (s : Node) : Prop := ∀ vni ∈ (self.cellOf s).subscribedVnisRemote,
  valueAt s.world.mb.subscribers vni ≠ {self.remoteAddr}

/-- The cleanup of a connection that was established leaves no VNI without subscribers. -/
def Spares (e : Event ι) (s : Node) : Prop := match e with
  | .disconnect i => ((peers i).cellOf s).state = .established → Shared (peers i) s
  | _ => True

inductive Step (Allowed : Event ι → Node → Prop) (s : Node) : Node → Prop
  | mk (e : Event ι) : Allowed e s → Step Allowed s (after ord peers e s)

end Events

/-- No VNI has an empty set of subscribers, so the keys are the VNIs that have one. -/
structure NoDeadEntries (s : Node) : Prop where
  full : Full s.world.mb.subscribers
  keys : ∀ vni, vni ∈ s.world.mb.subscribers.keys ↔ ∃ addr, addr ∈ valueAt s.world.mb.subscribers vni

theorem noDeadEntries_iff {s : Node} : NoDeadEntries s ↔ Full s.world.mb.subscribers := by
  refine ⟨NoDeadEntries.full, fun h ↦ ⟨h, fun vni ↦ ?_⟩⟩
  rw [h.mem_keys]
  exact Finset.nonempty_iff_ne_empty.symm

section Operations

variable {ord : HashOrder} {self : Peer} {s s' : Node}

theorem registry_of_tableOnly (h : TableOnly s s') :
    s'.world.mb.subscribers = s.world.mb.subscribers := by rw [h.mb_eq]

theorem full_subscribed (h : Full s.world.mb.subscribers) (vni : Vni) :
    Full (self.subscribed vni s).world.mb.subscribers :=
  h.insert vni (Finset.insert_ne_empty _ _)

theorem full_unsubscribed (h : Full s.world.mb.subscribers) (vni : Vni) :
    Full (self.unsubscribed vni s).world.mb.subscribers := by
  rw [mb_unsubscribed]
  unfold removeSubscriber
  split
  · exact h
  · exact h.put vni _

/-- The handlers drop the sets that they empty. -/
theorem full_process {msg : GeneratedMessage} {r : Except Error Unit}
    (h : Full s.world.mb.subscribers)
    (hdone : exec [] (self.process ord msg) s = .done r [] s') : Full s'.world.mb.subscribers := by
  cases msg with
  | hello hello =>
    cases (exec_processHello ord self s hello).symm.trans hdone
    exact h
  | keepalive =>
    cases (exec_processKeepalive ord self s).symm.trans hdone
    exact h
  | subscribe sub =>
    have hsub := (exec_processSubscribe ord self s sub).symm.trans hdone
    split at hsub <;> cases hsub <;> exact full_subscribed h sub.vni
  | unsubscribe unsub =>
    obtain ⟨s'', hrun, hforgets⟩ := exec_processUnsubscribe ord self s unsub
    cases hrun.symm.trans hdone
    rw [registry_of_tableOnly hforgets.1]
    exact full_unsubscribed h unsub.vni
  | update msg =>
    obtain ⟨r', s'', hrun, htable, -⟩ := exec_processUpdate self s msg
    cases hrun.symm.trans hdone
    rw [registry_of_tableOnly htable]
    exact h

theorem forgetSubscriber_empty (addr : SocketAddr) (m : HashMap Vni (Finset SocketAddr)) :
    forgetSubscriber addr ∅ m = m := by
  apply Finmap.ext_lookup
  intro vni
  simp only [forgetSubscriber, lookup_filterMap]
  cases m.lookup vni <;> simp

theorem finish_dropSubscriptions :
    (finish self.dropSubscriptions s).2.world.mb.subscribers =
      forgetSubscriber self.remoteAddr (self.cellOf s).subscribedVnisRemote
        s.world.mb.subscribers := by
  simp only [dropSubscriptions, finish_bind, finish_acquire, finish_gets, world_cell]
  by_cases hsubs : (self.cellOf s).subscribedVnisRemote = ∅
  · simp only [hsubs, if_true, finish_release, forgetSubscriber_empty]
  · simp only [hsubs, if_false, finish_bind, finish_acquire, finish_modify, finish_release]
    rfl

theorem finish_cleanupPeerState :
    (finish (self.cleanupPeerState ord) s).2.world.mb.subscribers =
      forgetSubscriber self.remoteAddr (self.cellOf s).subscribedVnisRemote
        s.world.mb.subscribers := by
  have hsend (routes : List Route) (s : Node) := finish_of_exec
    (exec_sendRemovals [] s self.remoteAddr routes)
  simp only [cleanupPeerState, finish_bind, finish_acquire, removeRoutesFromPeer, finish_update,
    hsend, finish_release, finish_dropSubscriptions]
  rfl

theorem finish_setState (newState : ConnectionState) :
    (finish (self.setState ord newState) s).2.world.mb.subscribers =
      if (self.cellOf s).state = .established ∧ newState ≠ .established then
        forgetSubscriber self.remoteAddr (self.cellOf s).subscribedVnisRemote
          s.world.mb.subscribers
      else s.world.mb.subscribers := by
  have hmod : s.world.modifyCell self.id (fun c ↦ { c with state := newState }) =
      (self.withCell s { self.cellOf s with state := newState }).world := rfl
  simp only [setState, finish_bind, finish_acquire, finish_gets, world_cell]
  by_cases hsame : (self.cellOf s).state = newState
  · have hnone : ¬ ((self.cellOf s).state = .established ∧ newState ≠ .established) := by
      rintro ⟨hest, hne⟩
      exact hne (hsame.symm.trans hest)
    simp only [hsame, if_true, finish_release]
    rw [← hsame] at hnone ⊢
    rw [if_neg hnone]
  · simp only [hsame, if_false, finish_bind, finish_modify, finish_release, hmod, mk_withCell]
    by_cases hest : (self.cellOf s).state = .established
    · have hnew : newState ≠ .established := fun h ↦ hsame (hest.trans h.symm)
      simp only [hest, hnew, false_and, if_false, ne_eq, not_false_eq_true, and_self, if_true]
      rw [finish_cleanupPeerState, cellOf_withCell]
      rfl
    · simp only [hest, and_false, false_and, if_false, ne_eq, not_false_eq_true, and_true]
      split
      · rw [finish_of_exec (exec_initialSync ord self _)]
        rfl
      · rfl

theorem finish_startPeer (hnew : (self.cellOf s).state ≠ .established) :
    (finish (self.startPeer ord) s).2.world.mb.subscribers = s.world.mb.subscribers := by
  have hset (c : PeerCell) (hc : (self.cellOf s).SameLink c) (newState : ConnectionState) :
      (finish (self.setState ord newState) (self.withCell s c)).2.world.mb.subscribers =
        s.world.mb.subscribers := by
    rw [finish_setState, if_neg fun h ↦ hnew ?_]
    · rfl
    · have hest := h.1
      rwa [cellOf_withCell, hc.2.1] at hest
  unfold startPeer
  cases self.direction with
  | incoming =>
    simp only [finish_bind, pure_eq, finish_ret]
    rw [finish_setState, if_neg fun h ↦ hnew h.1]
  | outgoing =>
    have hlink := (self.cellOf s).sameLink_trySend
      (.hello ⟨self.config.keepaliveInterval.asSecs.toUInt32, s.world.mb.isServer⟩)
    have hsend : finish (self.sendHello s.world.mb.isServer) s = _ :=
      finish_of_exec (exec_sendMessage self [] s _)
    simp only [finish_bind, finish_reading, hsend]
    split <;>
      simp only [finish_bind, pure_eq, finish_ret] <;> exact hset _ hlink _

theorem full_forgetSubscriber {addr : SocketAddr} {vnis : Finset Vni}
    {m : HashMap Vni (Finset SocketAddr)} (h : Full m) :
    Full (forgetSubscriber addr vnis m) ↔ ∀ vni ∈ vnis, valueAt m vni ≠ {addr} := by
  constructor
  · intro hfull vni hvni hvalue
    have hlookup : m.lookup vni = some {addr} :=
      (lookup_eq_some_iff (Finset.singleton_ne_empty addr)).mpr hvalue
    refine hfull vni ?_
    simp [forgetSubscriber, lookup_filterMap, hlookup, hvni]
  · intro hne vni hdead
    simp only [forgetSubscriber, lookup_filterMap] at hdead
    cases hlookup : m.lookup vni with
    | none => simp [hlookup] at hdead
    | some peerSet =>
      have hset : peerSet ≠ ∅ := fun hempty ↦ h vni (by rw [hlookup, hempty])
      have hvalue : valueAt m vni = peerSet := by rw [valueAt, hlookup, Option.getD_some]
      simp only [hlookup, Option.bind_some, Option.some.injEq] at hdead
      split at hdead
      · next hvni =>
        rcases (Finset.erase_eq_empty_iff _ _).mp hdead with hempty | hsingle
        · exact hset hempty
        · exact hne vni hvni (hvalue.trans hsingle)
      · exact hset hdead

end Operations

section Runs

variable {ι : Type} {ord : HashOrder} {peers : ι → Peer} {s s' : Node}

theorem registry_connect (i : ι) :
    (after ord peers (.connect i) s).world.mb.subscribers = s.world.mb.subscribers := by
  let s₀ : Node := (finish (insertPeer (peers i)) (finish (peers i).create s).2).2
  have hnew : ((peers i).cellOf s₀).state ≠ .established := by
    have hcell : (peers i).cellOf s₀ = .new := World.setCell_cell ..
    rw [hcell]
    decide
  have hstart : (finish ((peers i).startPeer ord) s₀).2.world.mb.subscribers =
      s.world.mb.subscribers := finish_startPeer hnew
  simpa only [after, Event.code, finish_bind, pure_eq, finish_ret] using hstart

theorem registry_disconnect (i : ι) :
    (after ord peers (.disconnect i) s).world.mb.subscribers =
      if ((peers i).cellOf s).state = .established then
        forgetSubscriber (peers i).remoteAddr ((peers i).cellOf s).subscribedVnisRemote
          s.world.mb.subscribers
      else s.world.mb.subscribers := by
  have hafter : (after ord peers (.disconnect i) s).world.mb.subscribers =
      (finish ((peers i).setState ord .closed) s).2.world.mb.subscribers := by
    simp only [after, Event.code, finish_bind, erasePeer, finish_writing]
    rfl
  have hset := @finish_setState ord (peers i) s .closed
  rw [hafter]
  split
  · next hest => exact hset.trans (if_pos ⟨hest, by decide⟩)
  · next hest => exact hset.trans (if_neg fun h ↦ hest h.1)

theorem after_message {i : ι} {msg : GeneratedMessage} {r : Except Error Unit}
    (hdone : exec [] ((peers i).process ord msg) s = .done r [] s') :
    after ord peers (.message i msg) s = s' := by
  simp only [after, Event.code, finish_bind, finish_of_exec hdone]
  rfl

/-- Of all that can happen, only a cleanup that empties a set leaves a dead entry. -/
theorem noDeadEntries_after (e : Event ι) (h : NoDeadEntries s) :
    NoDeadEntries (after ord peers e s) ↔ Spares peers e s := by
  rw [noDeadEntries_iff] at h ⊢
  cases e with
  | connect i =>
    rw [registry_connect]
    exact iff_of_true h trivial
  | message i msg =>
    obtain ⟨r, s', hdone⟩ := Connection.ends_process ord (peers i) msg s
    rw [after_message hdone]
    exact iff_of_true (full_process h hdone) trivial
  | disconnect i =>
    rw [registry_disconnect, Spares]
    by_cases hest : ((peers i).cellOf s).state = .established
    · rw [if_pos hest, full_forgetSubscriber h]
      exact ⟨fun hshared _ ↦ hshared, fun hshared ↦ hshared hest⟩
    · rw [if_neg hest]
      exact iff_of_true h fun hold ↦ absurd hold hest

theorem Step.mono {Allowed Allowed' : Event ι → Node → Prop}
    (hstep : Step ord peers Allowed s s') (h : ∀ e s, Allowed e s → Allowed' e s) :
    Step ord peers Allowed' s s' := by
  cases hstep with
  | mk e hallowed => exact .mk e (h e s hallowed)

theorem NoDeadEntries.step (h : NoDeadEntries s) (hstep : Step ord peers (Spares peers) s s') :
    NoDeadEntries s' := by
  cases hstep with
  | mk e hspares => exact (noDeadEntries_after e h).mpr hspares

theorem no_dead_entries (ord : HashOrder) (peers : ι → Peer) :
    (∀ (e : Event ι) (s : Node), NoDeadEntries s →
      (NoDeadEntries (after ord peers e s) ↔ Spares peers e s)) ∧
    ∀ s s' : Node, s.world.mb.subscribers = ∅ → Run (Step ord peers (Spares peers)) s s' →
      NoDeadEntries s' := by
  refine ⟨fun e s ↦ noDeadEntries_after e, fun s s' hempty hrun ↦ ?_⟩
  refine hrun.invariant (noDeadEntries_iff.mpr ?_) fun _ _ h hstep ↦ h.step hstep
  rw [hempty]
  exact full_empty

end Runs

open KeepaliveTimeout (acceptor)

theorem established_onKeepalive (ord : HashOrder) {self : Peer} {s : Node} {c : PeerCell}
    (hdir : self.direction = .incoming) (hsent : c.state = .helloSent) :
    (self.onKeepalive ord s c).2.state = .established ∧
      (self.onKeepalive ord s c).2.subscribedVnisRemote = c.subscribedVnisRemote := by
  have hlink := (sameLink_synced ord s { c with state := .established }).2
  simp [onKeepalive, hdir, hsent, hlink.1, hlink.2]

section Registers

variable {ord : HashOrder} {self : Peer} {s s' : Node} {vni : Vni} {r : Except Error Unit}

theorem subscribed_cell (hdone : exec [] (self.process ord (.subscribe ⟨vni⟩)) s = .done r [] s') :
    (self.cellOf s').state = (self.cellOf s).state ∧
      (self.cellOf s').subscribedVnisRemote = insert vni (self.cellOf s).subscribedVnisRemote ∧
      ∀ v, valueAt s'.world.mb.subscribers v = if v = vni then
        insert self.remoteAddr (valueAt s.world.mb.subscribers vni)
        else valueAt s.world.mb.subscribers v := by
  have hvalue (v : Vni) : valueAt (self.subscribed vni s).world.mb.subscribers v = _ :=
    subscribers_addSubscriber self.remoteAddr vni v s.world
  have hsub := (exec_processSubscribe ord self s ⟨vni⟩).symm.trans hdone
  split at hsub
  · cases hsub
    simp [hvalue]
  · cases hsub
    have hlink := PeerCell.sameLink_sendRoutes (self.cellOf (self.subscribed vni s))
      (self.snapshotFor ord vni s)
    rw [cellOf_withCell, hlink.2.1, hlink.2.2]
    simp only [cellOf_subscribed, true_and]
    exact hvalue

theorem unsubscribed_cell
    (hdone : exec [] (self.process ord (.unsubscribe ⟨vni⟩)) s = .done r [] s') :
    (self.cellOf s').state = (self.cellOf s).state ∧
      (self.cellOf s').subscribedVnisRemote = (self.cellOf s).subscribedVnisRemote.erase vni ∧
      ∀ v, valueAt s'.world.mb.subscribers v = if v = vni then
        (valueAt s.world.mb.subscribers vni).erase self.remoteAddr
        else valueAt s.world.mb.subscribers v := by
  obtain ⟨s'', hrun, htable, -⟩ := exec_processUnsubscribe ord self s ⟨vni⟩
  cases hrun.symm.trans hdone
  have hcell : self.cellOf s' = self.cellOf (self.unsubscribed vni s) := by
    obtain ⟨t, ht⟩ := htable
    rw [cellOf, ht]
    rfl
  refine ⟨by rw [hcell, Connection.cellOf_unsubscribed],
    by rw [hcell, Connection.cellOf_unsubscribed], fun v ↦ ?_⟩
  rw [registry_of_tableOnly htable, mb_unsubscribed]
  exact subscribers_removeSubscriber self.remoteAddr vni v s.world

end Registers

section Accepted

variable {ι : Type} {peers : ι → Peer} {i : ι} (hi : peers i = acceptor)

include hi

theorem exists_established : ∃ s, Run (Step .toList peers (Spares peers)) (Sample.node true) s ∧
    (acceptor.cellOf s).state = .established ∧ (acceptor.cellOf s).subscribedVnisRemote = ∅ ∧
      s.world.mb.subscribers = ∅ := by
  have hmessage (msg : GeneratedMessage) (s : Node) :
      Step .toList peers (Spares peers) s (after .toList peers (.message i msg) s) := .mk _ trivial
  obtain ⟨s₁, hconnect⟩ : ∃ s₁, after .toList peers (.connect i) (Sample.node true) = s₁ := ⟨_, rfl⟩
  have hcell : acceptor.cellOf s₁ = .new := by
    rw [← hconnect, after, Event.code, hi]
    rfl
  have hnone : s₁.world.mb.subscribers = ∅ := by
    rw [← hconnect, registry_connect]
    rfl
  have hhello : after .toList peers (.message i (.hello ⟨5, false⟩)) s₁ = _ :=
    after_message (hi ▸ exec_processHello .toList acceptor s₁ ⟨5, false⟩)
  rw [hi, hcell] at hhello
  generalize hgreeted : acceptor.onHello ⟨5, false⟩ .new = r at hhello
  have hsent : r.2.state = .helloSent ∧ r.2.subscribedVnisRemote = ∅ := by
    rw [← hgreeted]
    exact ⟨rfl, rfl⟩
  have hkeepalive : after .toList peers (.message i .keepalive) (acceptor.withCell s₁ r.2) = _ :=
    after_message (hi ▸ exec_processKeepalive .toList acceptor _)
  rw [hi] at hkeepalive
  have hstart : Step .toList peers (Spares peers) (Sample.node true)
      (after .toList peers (.connect i) (Sample.node true)) := .mk _ trivial
  have hrun := Run.cons hstart (.cons (hmessage (.hello ⟨5, false⟩) _)
    (.cons (hmessage .keepalive _) .refl))
  have hup := @established_onKeepalive .toList acceptor (acceptor.withCell s₁ r.2) _ rfl hsent.1
  refine ⟨_, hrun, ?_, ?_, ?_⟩
  · rw [hconnect, hhello, hkeepalive, cellOf_withCell, cellOf_withCell]
    exact hup.1
  · rw [hconnect, hhello, hkeepalive, cellOf_withCell, cellOf_withCell]
    exact hup.2.trans hsent.2
  · rw [hconnect, hhello, hkeepalive, withCell_mb, withCell_mb, hnone]

end Accepted

theorem exists_subscribed : ∃ s,
    Run (Step .toList (fun _ : Unit ↦ acceptor) (Spares fun _ ↦ acceptor)) (Sample.node true) s ∧
      (acceptor.cellOf s).state = .established ∧
      7 ∈ (acceptor.cellOf s).subscribedVnisRemote ∧
      valueAt s.world.mb.subscribers 7 = {acceptor.remoteAddr} := by
  obtain ⟨s, hrun, hest, -, hnone⟩ :=
    @exists_established Unit (fun _ ↦ acceptor) () rfl
  obtain ⟨r, s', hsubscribe⟩ := Connection.ends_process .toList acceptor (.subscribe ⟨7⟩) s
  obtain ⟨hstate, hrecorded, hvalue⟩ := subscribed_cell hsubscribe
  have hafter : after .toList (fun _ : Unit ↦ acceptor) (.message () (.subscribe ⟨7⟩)) s = s' :=
    after_message hsubscribe
  refine ⟨s', hafter ▸ hrun.snoc (.mk _ trivial), hstate.trans hest, ?_, ?_⟩
  · rw [hrecorded]
    exact Finset.mem_insert_self _ _
  · rw [hvalue, if_pos rfl, hnone, valueAt_empty]
    rfl

open SubscriptionRecords (acceptors)

/-- Two peers have subscribed to VNI 7, and one of them, for a while, to VNI 8. -/
theorem exists_shared : ∃ s,
    Run (Step .toList acceptors (Spares acceptors)) (Sample.node true) s ∧
      ((acceptors true).cellOf s).state = .established ∧
      ((acceptors true).cellOf s).subscribedVnisRemote = {7} ∧
      ∀ v, valueAt s.world.mb.subscribers v =
        if v = 7 then {(acceptors true).remoteAddr, (acceptors false).remoteAddr} else ∅ := by
  have hmessage (b : Bool) (msg : GeneratedMessage) (s : Node) : ∃ r s', exec []
      ((acceptors b).process .toList msg) s = .done r [] s' ∧
        Step .toList acceptors (Spares acceptors) s s' := by
    obtain ⟨r, s', hdone⟩ := Connection.ends_process .toList (acceptors b) msg s
    have hafter : after .toList acceptors (.message b msg) s = s' := after_message hdone
    exact ⟨r, s', hdone, hafter ▸ .mk (.message b msg) trivial⟩
  obtain ⟨s₁, hrun, hup₁, hnew, hnone⟩ := @exists_established Bool acceptors true rfl
  obtain ⟨r₂, s₂, hdone₂, hstep₂⟩ := hmessage false (.subscribe ⟨7⟩) s₁
  obtain ⟨-, -, hvalue₂⟩ := subscribed_cell hdone₂
  have hcell₂ : acceptor.cellOf s₂ = acceptor.cellOf s₁ := by
    have helsewhere := ((RemoteRole.acts_elsewhere (q := acceptors false)).composes.process .toList
      (.subscribe ⟨7⟩)).exec [] s₁
    rw [hdone₂] at helsewhere
    exact helsewhere.2 acceptor.id (by decide)
  obtain ⟨r₃, s₃, hdone₃, hstep₃⟩ := hmessage true (.subscribe ⟨7⟩) s₂
  obtain ⟨hup₃, hrecorded₃, hvalue₃⟩ := subscribed_cell hdone₃
  obtain ⟨r₄, s₄, hdone₄, hstep₄⟩ := hmessage true (.subscribe ⟨8⟩) s₃
  obtain ⟨hup₄, hrecorded₄, hvalue₄⟩ := subscribed_cell hdone₄
  obtain ⟨r₅, s₅, hdone₅, hstep₅⟩ := hmessage true (.unsubscribe ⟨8⟩) s₄
  obtain ⟨hup₅, hrecorded₅, hvalue₅⟩ := unsubscribed_cell hdone₅
  refine ⟨s₅, (((hrun.snoc hstep₂).snoc hstep₃).snoc hstep₄).snoc hstep₅, ?_, ?_, fun v ↦ ?_⟩
  · rw [hup₅, hup₄, hup₃]
    exact (congrArg PeerCell.state hcell₂).trans hup₁
  · rw [hrecorded₅, hrecorded₄, hrecorded₃, show ((acceptors true).cellOf s₂).subscribedVnisRemote =
      ∅ from (congrArg PeerCell.subscribedVnisRemote hcell₂).trans hnew]
    decide
  · rw [hvalue₅, hvalue₄, hvalue₄, hvalue₃, hvalue₃, hvalue₂, hvalue₂, hvalue₂, hnone]
    simp only [valueAt_empty]
    by_cases hseven : v = 7
    · subst hseven
      decide
    · by_cases height : v = 8
      · subst height
        decide
      · simp [hseven, height]

/-- When that peer goes, the other one is left with VNI 7. -/
theorem no_dead_entries_sample : ∃ s, NoDeadEntries s ∧ s.world.mb.subscribers.keys = {7} := by
  obtain ⟨s, hrun, hup, hrecorded, hvalue⟩ := exists_shared
  have hspares : Spares acceptors (.disconnect true) s := by
    intro _ vni hvni
    obtain rfl := Finset.mem_singleton.mp (hrecorded ▸ hvni)
    rw [hvalue, if_pos rfl]
    decide
  have hclean := (no_dead_entries .toList acceptors).2 _ _ rfl
    (hrun.snoc (.mk (.disconnect true) hspares))
  refine ⟨_, hclean, Finset.ext fun v ↦ ?_⟩
  rw [hclean.keys v, registry_disconnect, if_pos hup, valueAt_forgetSubscriber, hrecorded]
  simp only [Finset.mem_singleton, hvalue]
  by_cases hseven : v = 7
  · simp only [hseven, if_true, iff_true]
    exact ⟨(acceptors false).remoteAddr, by decide⟩
  · simp [hseven]

/-- The only subscriber of a VNI disconnects, and the VNI stays with no subscribers. -/
theorem empty_set_left_behind :
    ¬ ∀ s s' : Node, s.world.mb.subscribers = ∅ →
      Run (Step .toList (fun _ : Unit ↦ acceptor) fun _ _ ↦ True) s s' → NoDeadEntries s' := by
  intro h
  obtain ⟨s, hspared, hest, hmem, hvalue⟩ := exists_subscribed
  have hrun := hspared.mono fun _ _ hstep ↦ hstep.mono fun _ _ _ ↦ trivial
  have hclean := h _ s rfl hrun
  have hdead := h _ _ rfl (hrun.snoc (.mk (.disconnect ()) trivial))
  have hshared := (noDeadEntries_after (.disconnect ()) hclean).mp hdead
  exact hshared hest 7 hmem hvalue

end MetalBond.SubscriberRegistry
