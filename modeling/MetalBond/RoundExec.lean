import MetalBond.HandlePeer
import MetalBond.PeerFrame

namespace MetalBond

open Async Task Collections HashMap

theorem Timers.isSome_timeoutDuration {config : Config} {secs : UInt64}
    (h : config.keepaliveInterval = .fromSecs secs) :
    (Timers.timeoutDuration config).isSome ↔ secs.toNat * 5 < 2 ^ 64 := by
  have hrange : (Duration.fromSecs secs).nanos * 5 < 2 ^ 64 * 10 ^ 9 ↔
      secs.toNat * 5 < 2 ^ 64 := by
    change secs.toNat * 10 ^ 9 * 5 < 2 ^ 64 * 10 ^ 9 ↔ _
    omega
  rw [Timers.timeoutDuration, h, Option.isSome_map, Duration.mul, ← hrange]
  split
  · next hlt => exact iff_of_true rfl hlt
  · next hge => exact iff_of_false (by simp) hge

theorem Timers.isSome_of_reset {config : Config} {now : Instant} {t : Timers} {p : Bool}
    (h : (t.polled p).reset config now = none) : t.keepaliveTimeout.isSome := by
  unfold Timers.reset at h
  split at h
  · cases h
  · next deadline hsome =>
    unfold Timers.polled at hsome
    split at hsome
    · cases hsome
    · rw [hsome]
      rfl

namespace PeerCell

variable (c : PeerCell)

def pinged : PeerCell :=
  match c.trySend .keepalive with
  | (.ok _, c) => c
  | (.error _, c) => { c with shutdownSignal := true }

def dequeued : PeerCell :=
  match c.tx.recv with
  | none => c
  | some (_, tx) => { c with tx := tx }

theorem sameLink_pinged : c.SameLink c.pinged := by
  have hsend := c.sameLink_trySend .keepalive
  unfold pinged
  split <;> next heq =>
    rw [heq] at hsend
    exact hsend

theorem sameLink_dequeued : c.SameLink c.dequeued := by
  unfold dequeued
  split <;> exact .refl _

variable {c}

theorem queue_dequeued {msg : GeneratedMessage} {rest : List GeneratedMessage}
    (h : c.tx.queue = msg :: rest) : c.dequeued.tx.queue = rest := by
  obtain ⟨tx, hrecv, htx⟩ := Mailbox.recv_of_cons h
  rw [dequeued, hrecv]
  exact congrArg Channel.queue htx

end PeerCell

namespace Peer

variable (ord : HashOrder) (self : Peer) (s : Node)

def parted (s : Node) : Node :=
  let s' := self.withCell s { self.cellOf s with state := .closed }
  if (self.cellOf s).state = .established then dropRoutes ord self.remoteAddr s' else s'

theorem cellOf_parted : self.cellOf (self.parted ord s) =
    { self.cellOf s with state := .closed } := by
  unfold parted
  split <;> exact cellOf_withCell ..

def Blocks (c : PeerCell) : Prop := c.state = .established ∧ c.subscribedVnisRemote ≠ ∅

instance (c : PeerCell) : Decidable (Blocks c) := inferInstanceAs (Decidable (_ ∧ _))

theorem exec_setState_closed : exec [] (self.setState ord .closed) s =
    if Blocks (self.cellOf s) then .blocked .metalbondState .write (self.parted ord s)
    else .done () [] (self.parted ord s) := by
  by_cases hest : (self.cellOf s).state = .established
  · rw [exec_setState_leave ord self s (by decide) hest, exec_cleanupPeerState]
    simp [Blocks, parted, hest]
  · have hblocks : ¬ Blocks (self.cellOf s) := fun h ↦ hest h.1
    rw [if_neg hblocks, parted, if_neg hest]
    by_cases hclosed : (self.cellOf s).state = .closed
    · have hself := exec_setState_self ord self s
      have hsame : { self.cellOf s with state := .closed } = self.cellOf s := by rw [← hclosed]
      rw [hclosed] at hself
      rw [hself, hsame, withCell_cellOf]
    · rw [exec_setState_enter ord self s hclosed hest]
      rfl

theorem exec_closeAndTrigger : exec [] (self.closeAndTrigger ord) s =
    if Blocks (self.cellOf s) then .blocked .metalbondState .write (self.parted ord s)
    else .done () [] (self.withCell (self.parted ord s)
      { self.cellOf (self.parted ord s) with shutdownSignal := true }) := by
  rw [closeAndTrigger, exec_bind, exec_setState_closed]
  split <;> simp

theorem exec_pinged {α : Type} (k : Code α) :
    exec [] (do let r ← self.sendKeepalive; self.shutdownOnError r; k) s =
      exec [] k (self.withCell s (self.cellOf s).pinged) := by
  simp only [exec_bind, sendKeepalive, exec_sendMessage, Outcome.done_andThen, PeerCell.pinged]
  rcases (self.cellOf s).trySend .keepalive with ⟨_ | _, c⟩ <;> simp [shutdownOnError]

theorem exec_takeOutgoing : exec [] (modify self.takeOutgoing : Code Unit) s =
    .done () [] (self.withCell s (self.cellOf s).dequeued) := by
  have htake : self.takeOutgoing s.world = s.world.setCell self.id (self.cellOf s).dequeued := by
    simp only [takeOutgoing, PeerCell.dequeued, world_cell]
    cases (self.cellOf s).tx.recv with
    | none => exact (World.setCell_self ..).symm
    | some x => rfl
  rw [exec_modify, htake]
  rfl

def started (s : Node) : Node :=
  if self.direction = .outgoing then self.withCell s (self.cellOf s).pinged else s

theorem sameLink_started : (self.cellOf s).SameLink (self.cellOf (self.started s)) := by
  unfold started
  split
  · rw [cellOf_withCell]
    exact (self.cellOf s).sameLink_pinged
  · exact .refl _

theorem withCell_started : self.withCell s (self.cellOf (self.started s)) = self.started s := by
  unfold started
  split
  · rw [cellOf_withCell]
  · exact withCell_cellOf ..

theorem exec_startKeepalive (later : Instant) (t : Timers) :
    exec [] (self.startKeepalive later t) s =
      if (self.cellOf s).state = .established ∧ t.keepaliveInterval = none then
        match Timers.start self.config later with
        | none => .done .panicked [] s
        | some t => .done (.again t) [] (self.started s)
      else .done (.again t) [] s := by
  simp only [startKeepalive, exec_bind, exec_getState, Outcome.done_andThen]
  split
  · cases Timers.start self.config later with
    | none => rfl
    | some t =>
      simp only [started]
      split
      · rw [exec_pinged]
        rfl
      · rfl
  · rfl

end Peer

namespace Connection

open Peer

variable (ord : HashOrder) (self : Peer)

theorem node_round (r : Round) (t : Timers) (s : Node) :
    (round ord self r t s).node = (exec [] (self.selectRound ord r t) s).shared := by
  unfold round
  rcases exec [] (self.selectRound ord r t) s with ⟨_ | _ | _, _, _⟩ | _ <;> rfl

theorem node_start (s : Node) :
    (start ord self s).node = (exec [] (self.startPeer ord) s).shared := by
  unfold start
  rcases exec [] (self.startPeer ord) s with ⟨_ | _, _, _⟩ | _ <;> rfl

theorem ends_process (msg : GeneratedMessage) : Ends [] [] (self.process ord msg) := by
  intro s
  cases msg with
  | hello hello => exact ⟨_, _, exec_processHello ord self s hello⟩
  | keepalive => exact ⟨_, _, exec_processKeepalive ord self s⟩
  | subscribe sub =>
    have hdone := exec_processSubscribe ord self s sub
    split at hdone <;> exact ⟨_, _, hdone⟩
  | unsubscribe unsub => exact ends_processUnsubscribe ord self unsub s
  | update msg => exact ends_processUpdate self msg s

/-- The steps of the handshake that a message can cause. -/
inductive Advances : ConnectionDirection → ConnectionState → ConnectionState → Prop
  | answered : Advances .incoming .connecting .helloSent
  | answeredAgain : Advances .incoming .helloReceived .helloSent
  | greeted : Advances .outgoing .helloSent .helloReceived
  | accepted : Advances .incoming .helloSent .established
  | confirmed : Advances .outgoing .helloReceived .established

theorem Advances.source {d : ConnectionDirection} {st st' : ConnectionState}
    (h : Advances d st st') : st ≠ .established ∧ st ≠ .closed := by
  cases h <;> decide

/-- What a HELLO or a KEEPALIVE can do to the peer. -/
structure Answers (peer : Peer) (c c' : PeerCell) : Prop where
  subscriptions : c'.subscribedVnisRemote = c.subscribedVnisRemote
  state : c'.state = c.state ∨ Advances peer.direction c.state c'.state

theorem answers_onHello (hello : Pb.Hello) (c : PeerCell) :
    Answers self c (self.onHello hello c).2 := by
  unfold onHello
  split
  · exact ⟨rfl, Or.inl rfl⟩
  · cases hdir : self.direction with
    | incoming =>
      by_cases hst : c.state = .connecting ∨ c.state = .helloReceived
      · have hlink := PeerCell.sameLink_trySend { c with isRemoteServer := hello.isServer }
          (.hello ⟨self.config.keepaliveInterval.asSecs.toUInt32, true⟩)
        simp only [hst, if_true]
        split
        · next heq =>
          rw [heq] at hlink
          exact ⟨hlink.2.2, Or.inl hlink.2.1⟩
        · next heq =>
          rw [heq] at hlink
          refine ⟨hlink.2.2, Or.inr ?_⟩
          rw [hdir]
          rcases hst with hst | hst <;> rw [hst] <;> constructor
      · simp only [hst, if_false]
        exact ⟨rfl, Or.inl rfl⟩
    | outgoing =>
      by_cases hst : c.state = .helloSent
      · simp only [hst, if_true]
        refine ⟨rfl, Or.inr ?_⟩
        rw [hdir, hst]
        exact .greeted
      · simp only [hst, if_false]
        exact ⟨rfl, Or.inl rfl⟩

theorem answers_onKeepalive (s : Node) (c : PeerCell) :
    Answers self c (self.onKeepalive ord s c).2 := by
  have hsynced := sameLink_synced ord s { c with state := .established }
  have hsend := PeerCell.sameLink_trySend c .keepalive
  unfold onKeepalive
  cases hdir : self.direction with
  | incoming =>
    by_cases hsent : c.state = .helloSent
    · simp only [hsent, if_true]
      refine ⟨hsynced.2.2, Or.inr ?_⟩
      rw [hdir, hsent, hsynced.2.1]
      exact .accepted
    · by_cases hest : c.state = .established
      · simp only [hest, if_true]
        exact ⟨hsend.2.2, Or.inl hsend.2.1⟩
      · simp only [hsent, hest, if_false]
        exact ⟨rfl, Or.inl rfl⟩
  | outgoing =>
    by_cases hrec : c.state = .helloReceived
    · simp only [hrec, if_true]
      refine ⟨hsynced.2.2, Or.inr ?_⟩
      rw [hdir, hrec, hsynced.2.1]
      exact .confirmed
    · simp only [hrec, if_false]
      split <;> exact ⟨rfl, Or.inl rfl⟩

theorem cellOf_unsubscribed (vni : Vni) (s : Node) :
    self.cellOf (self.unsubscribed vni s) =
      { self.cellOf s with
        subscribedVnisRemote := (self.cellOf s).subscribedVnisRemote.erase vni } := by
  simp only [unsubscribed, cellOf, World.modifyCell_cell, cell_removeSubscriber]

theorem process_state {msg : GeneratedMessage} {s s' : Node} {r : Except Error Unit}
    (h : exec [] (self.process ord msg) s = .done r [] s') :
    (self.cellOf s').state = (self.cellOf s).state ∨
      Advances self.direction (self.cellOf s).state (self.cellOf s').state := by
  cases msg with
  | hello hello =>
    cases (exec_processHello ord self s hello).symm.trans h
    simpa using (answers_onHello self hello (self.cellOf s)).state
  | keepalive =>
    cases (exec_processKeepalive ord self s).symm.trans h
    simpa using (answers_onKeepalive ord self s (self.cellOf s)).state
  | subscribe sub =>
    have hsub := (exec_processSubscribe ord self s sub).symm.trans h
    split at hsub
    · cases hsub
      simp
    · cases hsub
      simp [(PeerCell.sameLink_sendRoutes _ _).2.1]
  | unsubscribe unsub =>
    obtain ⟨s'', hdone, hforgets⟩ := exec_processUnsubscribe ord self s unsub
    cases hdone.symm.trans h
    have hcell : self.cellOf s' = self.cellOf (self.unsubscribed unsub.vni s) :=
      congrFun hforgets.1.cell_eq self.id
    rw [hcell, cellOf_unsubscribed]
    exact Or.inl rfl
  | update msg =>
    obtain ⟨r', s'', hdone, htable, -⟩ := exec_processUpdate self s msg
    cases hdone.symm.trans h
    exact Or.inl (congrArg PeerCell.state (congrFun htable.cell_eq self.id))

theorem process_state_eq {msg : GeneratedMessage} {s s' : Node} {r : Except Error Unit}
    (h : exec [] (self.process ord msg) s = .done r [] s')
    (hs : (self.cellOf s).state = .established ∨ (self.cellOf s).state = .closed) :
    (self.cellOf s').state = (self.cellOf s).state := by
  rcases process_state ord self h with hsame | hadv
  · exact hsame
  · exact (hs.elim hadv.source.1 hadv.source.2).elim

/-- What can lead to the closing of a connection, and the state in which it closes. -/
inductive Breaks (r : Round) (s : Node) : Node → Prop
  | event (c : PeerCell) : (self.cellOf s).SameLink c → Breaks r s (self.withCell s c)
  | message (msg : GeneratedMessage) (e : Error) (s₀ : Node) :
    r.won = .frame (.message msg) → exec [] (self.process ord msg) s = .done (.error e) [] s₀ →
    Breaks r s s₀

/-- Everything that one round can do. -/
inductive RoundStep (r : Round) (t : Timers) (s : Node) : Connection → Prop
  | closed (s₀ : Node) (c : PeerCell) (phase : Phase) : Breaks ord self r s s₀ →
    (self.cellOf (self.parted ord s₀)).SameLink c → phase ≠ .starting →
    (phase ≠ .blocked → ¬ Blocks (self.cellOf s₀)) →
    RoundStep r t s ⟨self.withCell (self.parted ord s₀) c, phase⟩
  | processed (msg : GeneratedMessage) (t₁ : Timers) (s' : Node) :
    r.won = .frame (.message msg) → (t.polled r.polled).reset self.config r.now = some t₁ →
    exec [] (self.process ord msg) s = .done (.ok ()) [] s' →
    ¬ ((self.cellOf s').state = .established ∧ t₁.keepaliveInterval = none) →
    RoundStep r t s ⟨s', .running t₁⟩
  | established (msg : GeneratedMessage) (t₁ t₂ : Timers) (s' : Node) :
    r.won = .frame (.message msg) → (t.polled r.polled).reset self.config r.now = some t₁ →
    exec [] (self.process ord msg) s = .done (.ok ()) [] s' →
    (self.cellOf s').state = .established → t₁.keepaliveInterval = none →
    Timers.start self.config r.later = some t₂ →
    RoundStep r t s ⟨self.started s', .running t₂⟩
  | sent : r.won = .outgoing true →
    RoundStep r t s ⟨self.withCell s (self.cellOf s).dequeued, .running (t.polled r.polled)⟩
  | ticked : r.won = .tick → self.direction = .outgoing → (self.cellOf s).state = .established →
    RoundStep r t s ⟨self.withCell s (self.cellOf s).pinged, .running (t.polled r.polled)⟩
  | idled : r.won = .tick → ¬ (self.direction = .outgoing ∧ (self.cellOf s).state = .established) →
    RoundStep r t s ⟨s, .running (t.polled r.polled)⟩
  | overflowed (msg : GeneratedMessage) (s' : Node) : r.won = .frame (.message msg) →
    (s' = s ∧ t.keepaliveTimeout.isSome ∨
      exec [] (self.process ord msg) s = .done (.ok ()) [] s' ∧
        (self.cellOf s').state = .established) →
    RoundStep r t s ⟨s', .panicked⟩

variable {ord self}

theorem RoundStep.of_close {r : Round} {t t' : Timers} {s s₀ : Node} {k : Code Next}
    (hb : Breaks ord self r s s₀)
    (hk : k = do self.closeAndTrigger ord; return Next.again t') :
    RoundStep ord self r t s (afterRound (exec [] k s₀)) := by
  subst hk
  rw [exec_bind, exec_closeAndTrigger]
  split
  · next hblocks =>
    have hstep := closed (t := t) s₀ _ .blocked hb (.refl _) (by decide) (fun h ↦ absurd rfl h)
    rwa [withCell_cellOf] at hstep
  · next hblocks => exact .closed s₀ _ _ hb ⟨rfl, rfl, rfl⟩ (by simp) fun _ ↦ hblocks

theorem roundStep_message {r : Round} {t : Timers} {msg : GeneratedMessage} (s : Node)
    (hwon : r.won = .frame (.message msg)) :
    RoundStep ord self r t s (afterRound
      (exec [] (self.handleMessage ord r.now r.later (t.polled r.polled) msg) s)) := by
  unfold handleMessage
  cases hreset : (t.polled r.polled).reset self.config r.now with
  | none => exact .overflowed msg s hwon (Or.inl ⟨rfl, Timers.isSome_of_reset hreset⟩)
  | some t₁ =>
    obtain ⟨result, s', hdone⟩ := ends_process ord self msg s
    simp only [exec_bind, hdone, Outcome.done_andThen]
    cases result with
    | error e => exact .of_close (.message msg e s' hwon hdone) rfl
    | ok u =>
      simp only [exec_startKeepalive]
      by_cases hnew : (self.cellOf s').state = .established ∧ t₁.keepaliveInterval = none
      · rw [if_pos hnew]
        cases hstart : Timers.start self.config r.later with
        | none => exact .overflowed msg s' hwon (Or.inr ⟨hdone, hnew.1⟩)
        | some t₂ => exact .established msg t₁ t₂ s' hwon hreset hdone hnew.1 hnew.2 hstart
      · rw [if_neg hnew]
        exact .processed msg t₁ s' hwon hreset hdone hnew

variable (ord self) in
theorem roundStep (r : Round) (t : Timers) (s : Node) :
    RoundStep ord self r t s (round ord self r t s) := by
  have hself : Breaks ord self r s s := by
    have hevent : Breaks ord self r s _ := .event _ (.refl (self.cellOf s))
    rwa [withCell_cellOf] at hevent
  unfold round selectRound handleBranch
  cases hwon : r.won with
  | shutdown =>
    let s₀ := self.withCell s { self.cellOf s with shutdownSignal := false }
    have hpermit : Breaks ord self r s s₀ := .event _ ⟨rfl, rfl, rfl⟩
    have hclose : exec [] (do self.setState ord .closed; return Next.returned) s₀ =
        if Blocks (self.cellOf s₀) then .blocked .metalbondState .write (self.parted ord s₀)
        else .done .returned [] (self.parted ord s₀) := by
      rw [exec_bind, exec_setState_closed]
      split <;> rfl
    have hstep (phase : Phase) (hstarting : phase ≠ .starting)
        (hphase : phase ≠ .blocked → ¬ Blocks (self.cellOf s₀)) :
        RoundStep ord self r t s ⟨self.parted ord s₀, phase⟩ := by
      have hclosed := RoundStep.closed (t := t) s₀ _ phase hpermit (.refl _) hstarting hphase
      rwa [withCell_cellOf] at hclosed
    refine (congrArg (fun o ↦ RoundStep ord self r t s (afterRound o)) hclose).mpr ?_
    split
    · exact hstep .blocked (by decide) fun h ↦ absurd rfl h
    · next hblocks => exact hstep .returned (by decide) fun _ ↦ hblocks
  | frame f =>
    cases f with
    | message msg => exact roundStep_message s hwon
    | error => exact .of_close hself rfl
    | eof => exact .of_close hself rfl
  | outgoing sent =>
    have hdeq : Breaks ord self r s (self.withCell s (self.cellOf s).dequeued) :=
      .event _ (self.cellOf s).sameLink_dequeued
    cases sent with
    | true =>
      simp only [exec_bind, exec_takeOutgoing]
      exact .sent hwon
    | false =>
      simp only [exec_bind, exec_takeOutgoing]
      exact .of_close hdeq rfl
  | tick =>
    simp only [exec_bind, exec_getState, Outcome.done_andThen]
    by_cases hping : self.direction = .outgoing ∧ (self.cellOf s).state = .established
    · rw [if_pos hping, exec_pinged]
      exact .ticked hwon hping.1 hping.2
    · rw [if_neg hping]
      exact .idled hwon hping
  | timeout => exact .of_close hself rfl

theorem RoundStep.phase_ne {r : Round} {t : Timers} {s : Node} {c : Connection}
    (h : RoundStep ord self r t s c) : c.phase ≠ .starting := by
  cases h with
  | closed s₀ c phase _ _ hstarting _ => exact hstarting
  | _ => simp

theorem round_of_closed {r : Round} {t : Timers} {s : Node}
    (hs : (self.cellOf s).state = .closed) :
    (self.cellOf (round ord self r t s).node).state = .closed := by
  have hstep := roundStep ord self r t s
  have hprocess {msg : GeneratedMessage} {s' : Node} {u : Except Error Unit}
      (hdone : exec [] (self.process ord msg) s = .done u [] s') :
      (self.cellOf s').state = .closed :=
    (process_state_eq ord self hdone (Or.inr hs)).trans hs
  generalize Connection.round ord self r t s = c at hstep ⊢
  cases hstep with
  | closed s₀ c phase _ hlink _ _ => rw [cellOf_withCell, hlink.2.1, cellOf_parted]
  | processed msg t₁ s' _ _ hdone _ => exact hprocess hdone
  | established msg t₁ t₂ s' _ _ hdone _ _ _ =>
    rw [(self.sameLink_started s').2.1, hprocess hdone]
  | sent _ => rw [cellOf_withCell, (PeerCell.sameLink_dequeued _).2.1, hs]
  | ticked _ _ hest => rw [cellOf_withCell, (PeerCell.sameLink_pinged _).2.1, hs]
  | idled _ _ => exact hs
  | overflowed msg s' _ hs' =>
    rcases hs' with ⟨rfl, -⟩ | ⟨hdone, -⟩
    · exact hs
    · exact hprocess hdone

theorem exec_selectRound_kept {r : Round} {t t₁ : Timers} {s s' : Node} {msg : GeneratedMessage}
    (hwon : r.won = .frame (.message msg))
    (hreset : (t.polled r.polled).reset self.config r.now = some t₁)
    (hdone : exec [] (self.process ord msg) s = .done (.ok ()) [] s')
    (hstays : ¬ ((self.cellOf s').state = .established ∧ t₁.keepaliveInterval = none)) :
    exec [] (self.selectRound ord r t) s = .done (.again t₁) [] s' := by
  unfold selectRound handleBranch handleMessage
  simp only [hwon, hreset, exec_bind, hdone, Outcome.done_andThen, exec_startKeepalive]
  rw [if_neg hstays]

theorem round_kept {r : Round} {t t₁ : Timers} {s s' : Node} {msg : GeneratedMessage}
    (hwon : r.won = .frame (.message msg))
    (hreset : (t.polled r.polled).reset self.config r.now = some t₁)
    (hdone : exec [] (self.process ord msg) s = .done (.ok ()) [] s')
    (hstays : ¬ ((self.cellOf s').state = .established ∧ t₁.keepaliveInterval = none)) :
    round ord self r t s = ⟨s', .running t₁⟩ := by
  rw [round, exec_selectRound_kept hwon hreset hdone hstays]
  rfl

theorem round_processed {r : Round} {t t₁ : Timers} {s s' : Node} {msg : GeneratedMessage}
    (hwon : r.won = .frame (.message msg))
    (hreset : (t.polled r.polled).reset self.config r.now = some t₁)
    (hdone : exec [] (self.process ord msg) s = .done (.ok ()) [] s')
    (hest : (self.cellOf s').state ≠ .established) :
    round ord self r t s = ⟨s', .running t₁⟩ :=
  round_kept hwon hreset hdone fun h ↦ hest h.1

theorem exec_selectRound_started {r : Round} {t t₁ t₂ : Timers} {s s' : Node}
    {msg : GeneratedMessage} (hwon : r.won = .frame (.message msg))
    (hreset : (t.polled r.polled).reset self.config r.now = some t₁)
    (hdone : exec [] (self.process ord msg) s = .done (.ok ()) [] s')
    (hest : (self.cellOf s').state = .established) (hoff : t₁.keepaliveInterval = none)
    (hstart : Timers.start self.config r.later = some t₂) :
    exec [] (self.selectRound ord r t) s = .done (.again t₂) [] (self.started s') := by
  unfold selectRound handleBranch handleMessage
  simp only [hwon, hreset, exec_bind, hdone, Outcome.done_andThen, exec_startKeepalive, hest, hoff,
    hstart, and_self, if_true]

theorem round_established {r : Round} {t t₁ t₂ : Timers} {s s' : Node} {msg : GeneratedMessage}
    (hwon : r.won = .frame (.message msg))
    (hreset : (t.polled r.polled).reset self.config r.now = some t₁)
    (hdone : exec [] (self.process ord msg) s = .done (.ok ()) [] s')
    (hest : (self.cellOf s').state = .established) (hoff : t₁.keepaliveInterval = none)
    (hstart : Timers.start self.config r.later = some t₂) :
    round ord self r t s = ⟨self.started s', .running t₂⟩ := by
  rw [round, exec_selectRound_started hwon hreset hdone hest hoff hstart]
  rfl

theorem round_sent {r : Round} (hwon : r.won = .outgoing true) (t : Timers) (s : Node) :
    round ord self r t s =
      ⟨self.withCell s (self.cellOf s).dequeued, .running (t.polled r.polled)⟩ := by
  unfold round selectRound handleBranch
  simp only [hwon, exec_bind, exec_takeOutgoing]
  rfl

/-- The end of the stream closes the connection and leaves a permit for the shutdown branch. -/
theorem exec_selectRound_ended {r : Round} (hwon : r.won = .frame .eof) (t : Timers) {s : Node}
    (hblocks : ¬ Blocks (self.cellOf s)) :
    exec [] (self.selectRound ord r t) s =
      .done (.again (t.polled r.polled)) [] (self.withCell (self.parted ord s)
        { self.cellOf (self.parted ord s) with shutdownSignal := true }) := by
  unfold selectRound handleBranch
  simp only [hwon, exec_bind, exec_closeAndTrigger, if_neg hblocks]
  rfl

theorem round_ended {r : Round} (hwon : r.won = .frame .eof) (t : Timers) {s : Node}
    (hblocks : ¬ Blocks (self.cellOf s)) :
    round ord self r t s = ⟨self.withCell (self.parted ord s)
      { self.cellOf (self.parted ord s) with shutdownSignal := true },
      .running (t.polled r.polled)⟩ := by
  rw [round, exec_selectRound_ended hwon t hblocks]
  rfl

theorem round_shutdown {r : Round} (hwon : r.won = .shutdown) (t : Timers) {s : Node}
    (hblocks : ¬ Blocks (self.cellOf s)) : round ord self r t s =
      ⟨self.parted ord (self.withCell s { self.cellOf s with shutdownSignal := false }),
        .returned⟩ := by
  let s₀ := self.withCell s { self.cellOf s with shutdownSignal := false }
  have hblocks₀ : ¬ Blocks (self.cellOf s₀) := by
    rw [cellOf_withCell]
    exact hblocks
  have hclosed := exec_setState_closed ord self s₀
  rw [if_neg hblocks₀] at hclosed
  have hrest : exec [] (do self.setState ord .closed; return Next.returned) s₀ =
      .done .returned [] (self.parted ord s₀) := by
    rw [exec_bind, hclosed]
    rfl
  unfold round selectRound handleBranch
  simp only [hwon]
  exact congrArg afterRound hrest

inductive StartStep (ord : HashOrder) (self : Peer) (s : Node) : Connection → Prop
  | incoming : self.direction = .incoming → StartStep ord self s ⟨s, .running .off⟩
  | outgoing (c : PeerCell) : self.direction = .outgoing →
    (self.cellOf s).trySend (.hello ⟨self.config.keepaliveInterval.asSecs.toUInt32,
      s.world.mb.isServer⟩) = (.ok (), c) →
    StartStep ord self s ⟨self.withCell s { c with state := .helloSent }, .running .off⟩
  | failed (c : PeerCell) (e : Error) :
    (self.cellOf s).trySend (.hello ⟨self.config.keepaliveInterval.asSecs.toUInt32,
      s.world.mb.isServer⟩) = (.error e, c) →
    StartStep ord self s ⟨self.withCell s { c with state := .closed }, .returned⟩

variable (ord) in
theorem startStep {s : Node} (hnew : (self.cellOf s).state = .connecting) :
    StartStep ord self s (start ord self s) := by
  unfold start startPeer
  cases hdir : self.direction with
  | incoming =>
    have hsame := exec_setState_self ord self s
    rw [hnew] at hsame
    simp only [exec_bind, hsame]
    exact .incoming hdir
  | outgoing =>
    simp only [exec_bind, exec_reading [] _ rfl, Outcome.done_andThen, sendHello, exec_sendMessage]
    have hlink := (self.cellOf s).sameLink_trySend
      (.hello ⟨self.config.keepaliveInterval.asSecs.toUInt32, s.world.mb.isServer⟩)
    rcases hsend : (self.cellOf s).trySend (.hello ⟨self.config.keepaliveInterval.asSecs.toUInt32,
      s.world.mb.isServer⟩) with ⟨_ | _, c⟩
    · rw [hsend] at hlink
      have hstate : (self.cellOf (self.withCell s c)).state = .connecting := by
        rw [cellOf_withCell, hlink.2.1, hnew]
      simp only [exec_bind]
      rw [exec_setState_enter ord self _ (by rw [hstate]; decide) (by rw [hstate]; decide)]
      simp only [cellOf_withCell, withCell_withCell, entered]
      exact .failed c _ hsend
    · rw [hsend] at hlink
      have hstate : (self.cellOf (self.withCell s c)).state = .connecting := by
        rw [cellOf_withCell, hlink.2.1, hnew]
      simp only [exec_bind]
      rw [exec_setState_enter ord self _ (by rw [hstate]; decide) (by rw [hstate]; decide)]
      simp only [cellOf_withCell, withCell_withCell, entered]
      exact .outgoing c hdir hsend

end Connection

end MetalBond
