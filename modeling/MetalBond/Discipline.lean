import MetalBond.Async.Run
import MetalBond.Async.Trace
import MetalBond.KeepaliveTimeout
import MetalBond.PeerActs
import MetalBond.TableExec

namespace MetalBond.Discipline

open Async Task Collections HashMap Peer Connection

inductive Event
  | changed (old new : ConnectionState)
  | cleanup
  deriving DecidableEq

variable (ord : HashOrder) (self : Peer)

/-- A step that leaves no route of the peer, whatever the table holds. Of all the steps
of a connection only the one that begins `cleanup_peer_state` is such a step. -/
def Cleans (f : World → World) : Prop :=
  ∀ w r, some self.remoteAddr ∉ (f w).mb.routeTable.sources r

open scoped Classical in
noncomputable def view (f : World → World) (w : World) : List Event :=
  (if (w.cell self.id).state = ((f w).cell self.id).state then []
    else [.changed (w.cell self.id).state ((f w).cell self.id).state]) ++
  if Cleans self f then [.cleanup] else []

variable {self}

def SameState (self : Peer) (f : World → World) : Prop :=
  ∀ w, ((f w).cell self.id).state = (w.cell self.id).state

theorem view_of_sameState {f : World → World} (hstate : SameState self f) (hclean : ¬Cleans self f)
    (w : World) : view self f w = [] := by
  rw [view, if_pos (hstate w).symm, if_neg hclean, List.append_nil]

theorem sameState_modifyCell {id : PeerId} {f : PeerCell → PeerCell}
    (hf : ∀ c, (f c).state = c.state) : SameState self fun w ↦ w.modifyCell id f := by
  intro w
  by_cases hid : self.id = id
  · simp only [hid, World.modifyCell_cell, hf]
  · simp only [World.modifyCell_cell_of_ne _ hid]

def learnedTwice (self : Peer) : World :=
  (Sample.node true).world.modifyMb fun mb ↦ { mb with
    routeTable := (mb.routeTable.store (0, Sample.destination, Sample.nextHop)
      {some self.remoteAddr}).store (1, Sample.destination, Sample.nextHop) {some self.remoteAddr} }

theorem mem_learnedTwice {vni : Vni} (h : vni = 0 ∨ vni = 1) : some self.remoteAddr ∈
    (learnedTwice self).mb.routeTable.sources (vni, Sample.destination, Sample.nextHop) := by
  rcases h with rfl | rfl <;> simp [learnedTwice, RouteTable.sources_store]

theorem not_cleans_of_same {f : World → World}
    (h : ∀ w, (f w).mb.routeTable = w.mb.routeTable) : ¬Cleans self f := by
  intro hclean
  have hgone := hclean (learnedTwice self) (0, Sample.destination, Sample.nextHop)
  rw [h] at hgone
  exact hgone (mem_learnedTwice (.inl rfl))

theorem not_cleans_of_keeps {f : World → World} {r : Route}
    (h : ∀ w r', r' ≠ r → (f w).mb.routeTable.sources r' = w.mb.routeTable.sources r') :
    ¬Cleans self f := by
  intro hclean
  by_cases hr : r.1 = 0
  · have hgone := hclean (learnedTwice self) (1, Sample.destination, Sample.nextHop)
    rw [h _ _ (by rintro rfl; exact absurd hr (by decide))] at hgone
    exact hgone (mem_learnedTwice (.inr rfl))
  · have hgone := hclean (learnedTwice self) (0, Sample.destination, Sample.nextHop)
    rw [h _ _ (by rintro rfl; exact hr rfl)] at hgone
    exact hgone (mem_learnedTwice (.inl rfl))

theorem view_id (w : World) : view self id w = [] :=
  view_of_sameState (fun _ ↦ rfl) (not_cleans_of_same fun _ ↦ rfl) w

theorem view_modifyCell {id : PeerId} {f : PeerCell → PeerCell} (hf : ∀ c, (f c).state = c.state)
    (w : World) : view self (fun w ↦ w.modifyCell id f) w = [] :=
  view_of_sameState (sameState_modifyCell hf) (not_cleans_of_same fun _ ↦ rfl) w

theorem view_modifyMb {f : MetalBondState → MetalBondState}
    (hf : ∀ mb, (f mb).routeTable = mb.routeTable) (w : World) :
    view self (fun w ↦ w.modifyMb f) w = [] := by
  have hstate : SameState self fun w ↦ w.modifyMb f := fun _ ↦ rfl
  exact view_of_sameState hstate (not_cleans_of_same fun w ↦ hf w.mb) w

abbrev Still (self : Peer) {α : Type} (t : Code α) : Prop := Silent (view self) t

variable (self)

theorem still_dropSubscriptions : Still self self.dropSubscriptions := by
  refine .bind (.acquire ..) fun _ ↦ .bind (.gets view_id _) fun remoteSubs ↦ ?_
  split
  · exact .release ..
  · refine .bind (.acquire ..) fun _ ↦ .bind (.modify (view_modifyMb fun _ ↦ rfl)) fun _ ↦ ?_
    refine .bind (.modify (view_modifyCell fun _ ↦ rfl)) fun _ ↦ ?_
    exact .bind (.release ..) fun _ ↦ .release ..

theorem view_applyUpdate {vni : Vni} {dest : Destination} {nh : NextHop} {source : PeerKey}
    (action : UpdateAction) (w : World) :
    view self (fun w ↦ (applyUpdate action vni dest nh source w).2) w = [] := by
  have hstate : SameState self fun w ↦ (applyUpdate action vni dest nh source w).2 := by
    intro w
    obtain ⟨t, ht⟩ : RoutesOnly w (applyUpdate action vni dest nh source w).2 :=
      routesOnly_applyUpdate action
    simp only [ht]
    rfl
  refine view_of_sameState hstate ?_ w
  refine not_cleans_of_keeps (r := (vni, dest, nh)) fun w r hr ↦ ?_
  rw [sources_applyUpdate, if_neg hr]

/-- All the code of a connection that changes neither its state nor the table at once is still. -/
theorem talks_still : self.Talks fun _ t ↦ Still self t where
  ret a := .ret a
  bind := .bind
  acquire l m := .acquire l m
  release l m := .release l m
  gets f := .gets view_id f
  sendMessage msg := by
    refine .update (view_of_sameState (fun w ↦ ?_) (not_cleans_of_same fun _ ↦ rfl))
    simp only [World.setCell_cell]
    exact ((w.cell self.id).sameLink_trySend msg).2.1
  signal b := .modify (view_modifyCell fun _ ↦ rfl)
  send u := .sendOn u
  update action vni dest nh := .update (view_applyUpdate self action)
  subscribe vni k hk := by
    have hadd : ∀ w, view self (fun w ↦ (addSubscriber self.remoteAddr vni w).2) w = [] :=
      view_of_sameState (fun _ ↦ rfl) (not_cleans_of_same fun _ ↦ rfl)
    have hrecord : ∀ w, view self (fun w ↦ w.modifyCell self.id fun c ↦
        { c with subscribedVnisRemote := insert vni c.subscribedVnisRemote }) w = [] :=
      view_modifyCell fun _ ↦ rfl
    exact .bind (.writing hadd) fun b ↦ .bind (.writing hrecord) fun _ ↦ hk b
  unsubscribe vni k hk := by
    have hstate : SameState self fun w ↦ (removeSubscriber self.remoteAddr vni w).2 :=
      fun w ↦ by simp only [cell_removeSubscriber]
    have hclean : ¬Cleans self fun w ↦ (removeSubscriber self.remoteAddr vni w).2 :=
      not_cleans_of_same fun w ↦ by rw [mb_removeSubscriber]
    have hrecord : ∀ w, view self (fun w ↦ w.modifyCell self.id fun c ↦
        { c with subscribedVnisRemote := c.subscribedVnisRemote.erase vni }) w = [] :=
      view_modifyCell fun _ ↦ rfl
    exact .bind (.writing (view_of_sameState hstate hclean)) fun b ↦
      .bind (.writing hrecord) fun _ ↦ hk b

variable {self} in
theorem state_of_still {α : Type} {t : Code α} (h : Still self t) (held : List (Guard Lock))
    (s : Node) : (self.cellOf (exec held t s).shared).state = (self.cellOf s).state := by
  induction t generalizing held s with
  | ret a => rfl
  | act f k ih =>
    refine (ih _ (h.2 s.world) held _).trans ?_
    have hview := (List.append_eq_nil_iff.mp (h.1 s.world)).1
    by_contra hne
    rw [if_neg fun he ↦ hne he.symm] at hview
    cases hview
  | lock l m k ih =>
    rw [exec]
    split
    · rfl
    · exact ih h _ _
  | unlock l m k ih => exact ih h _ _
  | send u k ih => exact ih _ (h _) _ _

section SetState

variable (s : Node)

theorem events_cleanupPeerState :
    events (view self) [] (self.cleanupPeerState ord) s = [.cleanup] := by
  have hclean : Cleans self fun w ↦
      w.modifyMb fun mb ↦ { mb with routeTable := mb.routeTable.dropPeer self.remoteAddr } := by
    intro w r
    simp
  have hremove : ∀ w, view self (fun w ↦
      w.modifyMb fun mb ↦ { mb with routeTable := mb.routeTable.dropPeer self.remoteAddr }) w =
        [.cleanup] := by
    intro w
    rw [view, if_pos hclean]
    simp
  have hrest : ∀ removed, Still self (do
      sendRemovals self.remoteAddr removed
      self.dropSubscriptions
      release .metalbondState .read : Code Unit) := fun removed ↦
    .bind ((talks_still self).sendRemovals removed) fun _ ↦
      .bind (still_dropSubscriptions self) fun _ ↦ .release ..
  rw [cleanupPeerState, events_bind, events_acquire, exec_acquire, clashes_nil,
    if_neg Bool.false_ne_true, Outcome.done_collect, events_bind, removeRoutesFromPeer,
    exec_update, events_update, Outcome.done_collect, (hrest _).events,
    List.nil_append, List.append_nil]
  exact hremove s.world

theorem events_setState (newState : ConnectionState) :
    events (view self) [] (self.setState ord newState) s =
      if (self.cellOf s).state = newState then []
      else .changed (self.cellOf s).state newState ::
        if newState ≠ .established ∧ (self.cellOf s).state = .established then [.cleanup] else [] := by
  have hset : view self (fun w ↦ w.modifyCell self.id fun c ↦ { c with state := newState })
      s.world = if (self.cellOf s).state = newState then []
        else [.changed (self.cellOf s).state newState] := by
    have hclean : ¬Cleans self fun w ↦
        w.modifyCell self.id fun c ↦ { c with state := newState } :=
      not_cleans_of_same fun _ ↦ rfl
    rw [view, if_neg hclean, List.append_nil, World.modifyCell_cell]
    rfl
  rw [setState, events_bind, events_acquire, exec_acquire, clashes_nil,
    if_neg Bool.false_ne_true, Outcome.done_collect, events_bind,
    ((talks_still self).gets _).events, exec_gets, Outcome.done_collect]
  by_cases hsame : (self.cellOf s).state = newState
  · simp [hsame]
  · simp only [world_cell, hsame, if_false, List.nil_append, events_bind, events_modify,
      exec_modify, Outcome.done_collect, events_release, exec_release, hset, List.cons_append,
      List.erase_cons_head]
    congr 1
    by_cases hnew : newState = .established
    · have hold : (self.cellOf s).state ≠ .established := fun h ↦ hsame (h.trans hnew.symm)
      simp [hnew, hold, ((talks_still self).initialSync ord).events]
    · by_cases hold : (self.cellOf s).state = .established
      · simp [hnew, hold, events_cleanupPeerState]
      · simp [hnew, hold]

end SetState

def closing (st : ConnectionState) : List Event :=
  if st = .closed then [] else .changed st .closed :: if st = .established then [.cleanup] else []

/-- What a round can show, and the state in which it leaves the connection. -/
inductive Shows (dir : ConnectionDirection) (won : Branch) (st : ConnectionState) :
    List Event → ConnectionState → Prop
  | kept : Shows dir won st [] st
  | greeted (hello : Pb.Hello) (st' : ConnectionState) :
    won = .frame (.message (.hello hello)) → hello.keepaliveInterval ≠ 0 → Advances dir st st' →
    st' ≠ .established → Shows dir won st [.changed st st'] st'
  | established : won = .frame (.message .keepalive) → Advances dir st .established →
    Shows dir won st [.changed st .established] .established
  | closed : Shows dir won st (closing st) .closed

section Rounds

variable (s : Node)

theorem events_setState_closed :
    events (view self) [] (self.setState ord .closed) s = closing (self.cellOf s).state := by
  simp [events_setState, closing]

/-- What a handler shows; one that fails shows nothing. -/
structure Handled (peer : Peer) (msg : GeneratedMessage) (s : Node) (r : Except Error Unit)
    (s' : Node) (shown : List Event) : Prop where
  shows : Shows peer.direction (.frame (.message msg)) (peer.cellOf s).state shown
    (peer.cellOf s').state
  failed : ∀ e, r = .error e → shown = [] ∧ (peer.cellOf s').state = (peer.cellOf s).state

variable {self} in
theorem Handled.of_nil {msg : GeneratedMessage} {s s' : Node} {r : Except Error Unit}
    (h : (self.cellOf s').state = (self.cellOf s).state) : Handled self msg s r s' [] :=
  ⟨by rw [h]; exact .kept, fun _ _ ↦ ⟨rfl, h⟩⟩

variable {self} in
theorem Handled.of_still {msg : GeneratedMessage} {s s' : Node} {r : Except Error Unit}
    {t : Code (Except Error Unit)} (hstill : Still self t) (h : exec [] t s = .done r [] s') :
    Handled self msg s r s' (events (view self) [] t s) := by
  have hstate := state_of_still hstill [] s
  rw [h] at hstate
  rw [hstill.events]
  exact .of_nil hstate

theorem handled_hello (hello : Pb.Hello) : Handled self (.hello hello) s
    (self.onHello hello (self.cellOf s)).1
    (self.withCell s (self.onHello hello (self.cellOf s)).2)
    (events (view self) [] (self.processHello ord hello) s) := by
  unfold processHello onHello
  split
  · exact .of_nil (by simp)
  · next hinterval =>
    have hflag : ∀ w, view self (fun w ↦ w.modifyCell self.id fun c ↦
        { c with isRemoteServer := hello.isServer }) w = [] := view_modifyCell fun _ ↦ rfl
    have hstill : Still self (writing (.isRemoteServer self.id) fun w ↦
        ((), w.modifyCell self.id fun c ↦ { c with isRemoteServer := hello.isServer })) :=
      .writing hflag
    have hmod : s.world.modifyCell self.id (fun c ↦ { c with isRemoteServer := hello.isServer }) =
        (self.withCell s { self.cellOf s with isRemoteServer := hello.isServer }).world := rfl
    simp only [events_bind, hstill.events, exec_writing [] _ rfl, Outcome.done_collect, hmod,
      (talks_still self).getState.events, exec_getState, mk_withCell, cellOf_withCell, List.nil_append]
    cases hdir : self.direction with
    | incoming =>
      by_cases hst : (self.cellOf s).state = .connecting ∨ (self.cellOf s).state = .helloReceived
      · simp only [hst, if_true, events_bind, sendHello, ((talks_still self).sendMessage _).events,
          exec_sendMessage, Outcome.done_collect, cellOf_withCell, withCell_withCell,
          List.nil_append]
        have hlink := PeerCell.sameLink_trySend
          { self.cellOf s with isRemoteServer := hello.isServer }
          (.hello ⟨self.config.keepaliveInterval.asSecs.toUInt32, true⟩)
        rcases hr : PeerCell.trySend { self.cellOf s with isRemoteServer := hello.isServer }
          (.hello ⟨self.config.keepaliveInterval.asSecs.toUInt32, true⟩) with ⟨_ | _, c⟩
        · rw [hr] at hlink
          exact .of_nil (by simpa using hlink.2.1)
        · rw [hr] at hlink
          have hadv : Advances .incoming (self.cellOf s).state .helloSent := by
            rcases hst with hst | hst <;> rw [hst] <;> constructor
          have hne : (self.cellOf s).state ≠ .helloSent := by
            rcases hst with hst | hst <;> simp [hst]
          have hc : c.state = (self.cellOf s).state := hlink.2.1
          simp only [pure_eq, events_bind_ret, events_setState, cellOf_withCell, hc, hne, if_false,
            hadv.source.1, and_false]
          refine ⟨?_, by simp⟩
          rw [cellOf_withCell, hdir]
          exact .greeted hello _ rfl hinterval hadv (by simp)
      · simp only [hst, if_false]
        exact .of_nil (by simp)
    | outgoing =>
      by_cases hst : (self.cellOf s).state = .helloSent
      · have hne : ConnectionState.helloSent ≠ .helloReceived ∧
            ConnectionState.helloSent ≠ .established := by decide
        simp only [hst, if_true, pure_eq, events_bind_ret, events_setState, cellOf_withCell, hne,
          if_false, and_false]
        refine ⟨?_, by simp⟩
        rw [cellOf_withCell, hdir, hst]
        exact .greeted hello _ rfl hinterval .greeted (by simp)
      · simp only [hst, if_false]
        exact .of_nil (by simp)

theorem handled_keepalive : Handled self .keepalive s (self.onKeepalive ord s (self.cellOf s)).1
    (self.withCell s (self.onKeepalive ord s (self.cellOf s)).2)
    (events (view self) [] (self.processKeepalive ord) s) := by
  unfold processKeepalive onKeepalive
  simp only [events_bind, (talks_still self).getState.events, exec_getState, Outcome.done_collect,
    List.nil_append]
  cases hdir : self.direction with
  | incoming =>
    by_cases hsent : (self.cellOf s).state = .helloSent
    · have hne : ConnectionState.helloSent ≠ .established := by decide
      simp only [hsent, if_true, pure_eq, events_bind_ret, events_setState, hne, if_false,
        and_false]
      refine ⟨?_, by simp⟩
      rw [cellOf_withCell, (sameLink_synced ord s _).2.1, hdir, hsent]
      exact .established rfl .accepted
    · by_cases hest : (self.cellOf s).state = .established
      · have hkeep : Still self (do
            let r ← self.sendKeepalive
            return withContext "Failed to send KEEPALIVE response" r : Code (Except Error Unit)) :=
          .bind ((talks_still self).sendMessage _) fun r ↦ .ret _
        simp only [hest, reduceCtorEq, if_true, if_false, hkeep.events]
        exact .of_nil (by simp [(PeerCell.sameLink_trySend _ _).2.1])
      · simp only [hsent, hest, if_false]
        exact .of_nil (by simp)
  | outgoing =>
    by_cases hrec : (self.cellOf s).state = .helloReceived
    · have hne : ConnectionState.helloReceived ≠ .established := by decide
      simp only [hrec, if_true, pure_eq, events_bind_ret, events_setState, hne, if_false,
        and_false]
      refine ⟨?_, by simp⟩
      rw [cellOf_withCell, (sameLink_synced ord s _).2.1, hdir, hrec]
      exact .established rfl .confirmed
    · by_cases hest : (self.cellOf s).state = .established
      · simp only [hest, reduceCtorEq, if_true, if_false]
        exact .of_nil (by simp)
      · simp only [hrec, hest, if_false]
        exact .of_nil (by simp)

theorem handled_process {msg : GeneratedMessage} {s s' : Node} {r : Except Error Unit}
    (h : exec [] (self.process ord msg) s = .done r [] s') :
    Handled self msg s r s' (events (view self) [] (self.process ord msg) s) := by
  cases msg with
  | hello hello =>
    cases (exec_processHello ord self s hello).symm.trans h
    exact handled_hello ord self s hello
  | keepalive =>
    cases (exec_processKeepalive ord self s).symm.trans h
    exact handled_keepalive ord self s
  | subscribe sub => exact .of_still ((talks_still self).processSubscribe ord sub) h
  | unsubscribe unsub => exact .of_still ((talks_still self).processUnsubscribe ord unsub) h
  | update msg => exact .of_still ((talks_still self).processUpdate msg) h

theorem node_afterRound (o : Outcome Lock World InternalUpdate Next) :
    (afterRound o).node = o.shared := by
  rcases o with ⟨_ | _ | _, _, _⟩ | ⟨_, _, _⟩ <;> rfl

theorem node_afterStart (o : Outcome Lock World InternalUpdate Bool) :
    (afterStart o).node = o.shared := by
  rcases o with ⟨_ | _, _, _⟩ | ⟨_, _, _⟩ <;> rfl

theorem state_setState_closed {α : Type} (k : Unit → Code α) (hk : ∀ u, Still self (k u)) :
    (self.cellOf (exec [] (self.setState ord .closed >>= k) s).shared).state = .closed := by
  rw [exec_bind, exec_setState_closed]
  split
  · rw [Outcome.blocked_andThen, Outcome.shared_blocked, cellOf_parted]
  · rw [Outcome.done_andThen, state_of_still (hk ()), cellOf_parted]

structure Leaves (peer : Peer) {α : Type} (k : Code α) (s : Node) (l : List Event)
    (st : ConnectionState) : Prop where
  shown : events (view peer) [] k s = l
  state : (peer.cellOf (exec [] k s).shared).state = st

theorem leaves_setState_closed {α : Type} {k : Unit → Code α} (hk : ∀ u, Still self (k u)) :
    Leaves self (self.setState ord .closed >>= k) s (closing (self.cellOf s).state) .closed := by
  refine ⟨?_, state_setState_closed ord self s k hk⟩
  rw [events_bind, events_setState_closed]
  cases exec [] (self.setState ord .closed) s with
  | done u held s' => rw [Outcome.done_collect, (hk u).events, List.append_nil]
  | blocked l m s' => exact List.append_nil _

theorem leaves_setState_enter {α : Type} (newState : ConnectionState) {k : Unit → Code α}
    (hne : (self.cellOf s).state ≠ newState) (hold : (self.cellOf s).state ≠ .established)
    (hk : ∀ u, Still self (k u)) : Leaves self (self.setState ord newState >>= k) s
      [.changed (self.cellOf s).state newState] newState := by
  have hexec := exec_setState_enter ord self s hne hold
  refine ⟨?_, ?_⟩
  · rw [events_bind, events_setState, hexec, Outcome.done_collect, (hk ()).events, if_neg hne,
      if_neg fun h ↦ hold h.2, List.append_nil]
  · rw [exec_bind, hexec, Outcome.done_andThen, state_of_still (hk ()), cellOf_withCell, entered]
    split
    · next hest => rw [(sameLink_synced ord s _).2.1]
    · rfl

variable {self} in
theorem Leaves.of_still {α : Type} {k : Code α} (h : Still self k) (s : Node) :
    Leaves self k s [] (self.cellOf s).state :=
  ⟨h.events [] s, state_of_still h [] s⟩

variable {self} in
theorem Leaves.after_still {α β : Type} {t : Code α} {a : α} {k : α → Code β} {s s' : Node}
    {l : List Event} {st : ConnectionState} (ht : Still self t) (h : exec [] t s = .done a [] s')
    (hk : Leaves self (k a) s' l st) : Leaves self (t >>= k) s l st := by
  refine ⟨?_, ?_⟩
  · rw [events_bind, ht.events, h, Outcome.done_collect, List.nil_append]
    exact hk.shown
  · rw [exec_bind, h, Outcome.done_andThen]
    exact hk.state

theorem leaves_close (next : Next) : Leaves self (do self.closeAndTrigger ord; return next) s
    (closing (self.cellOf s).state) .closed := by
  have hcode : (do self.closeAndTrigger ord; return next : Code Next) =
      self.setState ord .closed >>= fun _ ↦ do self.triggerShutdown; return next := by
    rw [closeAndTrigger, bind_assoc]
  rw [hcode]
  exact leaves_setState_closed ord self s fun _ ↦
    .bind (talks_still self).triggerShutdown fun _ ↦ .ret _

theorem still_takeOutgoing : Still self (modify self.takeOutgoing : Code Unit) := by
  have htake : ∀ w, (self.takeOutgoing w).mb.routeTable = w.mb.routeTable ∧
      ((self.takeOutgoing w).cell self.id).state = (w.cell self.id).state := by
    intro w
    unfold takeOutgoing
    split
    · exact ⟨rfl, rfl⟩
    · exact ⟨rfl, by rw [World.modifyCell_cell]⟩
  exact .modify (view_of_sameState (fun w ↦ (htake w).2) (not_cleans_of_same fun w ↦ (htake w).1))

theorem shows_handleMessage (now later : Instant) (t : Timers) (msg : GeneratedMessage) :
    ∃ l st, Leaves self (self.handleMessage ord now later t msg) s l st ∧
      Shows self.direction (.frame (.message msg)) (self.cellOf s).state l st := by
  unfold handleMessage
  cases t.reset self.config now with
  | none => exact ⟨_, _, .of_still (.ret _) s, .kept⟩
  | some t =>
    obtain ⟨r, s', hdone⟩ := ends_process ord self msg s
    have hhandled := handled_process ord self hdone
    cases r with
    | error e =>
      obtain ⟨hnil, hsame⟩ := hhandled.failed e rfl
      have hclose := leaves_close ord self s' (.again t)
      rw [hsame] at hclose
      refine ⟨_, _, ⟨?_, ?_⟩, .closed⟩
      · rw [events_bind, hnil, hdone, Outcome.done_collect, List.nil_append]
        exact hclose.shown
      · rw [exec_bind, hdone, Outcome.done_andThen]
        exact hclose.state
    | ok u =>
      have hstart := (talks_still self).startKeepalive later t
      refine ⟨_, _, ⟨?_, ?_⟩, hhandled.shows⟩
      · simp only [events_bind, hdone, Outcome.done_collect, hstart.events, List.append_nil]
      · simp only [exec_bind, hdone, Outcome.done_andThen]
        exact state_of_still hstart [] s'

theorem shows_selectRound (r : Round) (t : Timers) :
    ∃ l st, Leaves self (self.selectRound ord r t) s l st ∧
      Shows self.direction r.won (self.cellOf s).state l st := by
  unfold selectRound handleBranch
  cases r.won with
  | shutdown =>
    have hpermit : Still self (modify fun w ↦ w.modifyCell self.id fun c ↦
        { c with shutdownSignal := false } : Code Unit) := .modify (view_modifyCell fun _ ↦ rfl)
    have hclose := leaves_setState_closed ord self
      (self.withCell s { self.cellOf s with shutdownSignal := false })
      (fun _ ↦ .ret Next.returned)
    rw [cellOf_withCell] at hclose
    exact ⟨_, _, .after_still hpermit rfl hclose, .closed⟩
  | frame f =>
    cases f with
    | message msg => exact shows_handleMessage ord self s r.now r.later _ msg
    | error => exact ⟨_, _, leaves_close ord self s _, .closed⟩
    | eof => exact ⟨_, _, leaves_close ord self s _, .closed⟩
  | outgoing sent =>
    cases sent with
    | true =>
      exact ⟨_, _, .of_still (.bind (still_takeOutgoing self) fun _ ↦ .ret _) s, .kept⟩
    | false =>
      have hstate := state_of_still (still_takeOutgoing self) [] s
      have hclose := leaves_close ord self ⟨self.takeOutgoing s.world, s.chan⟩
        (.again (t.polled r.polled))
      exact ⟨_, _, .after_still (still_takeOutgoing self) rfl hclose, hstate ▸ .closed⟩
  | tick =>
    refine ⟨_, _, .of_still (.bind (talks_still self).getState fun state ↦ ?_) s, .kept⟩
    split
    · exact .bind ((talks_still self).sendMessage _) fun r ↦
        .bind ((talks_still self).shutdownOnError r) fun _ ↦ .ret _
    · exact .ret _
  | timeout => exact ⟨_, _, leaves_close ord self s _, .closed⟩

/-- What the start of `handle_peer` can show. -/
inductive StartShows (dir : ConnectionDirection) : List Event → ConnectionState → Prop
  | incoming : dir = .incoming → StartShows dir [] .connecting
  | outgoing : dir = .outgoing →
    StartShows dir [.changed .connecting .helloSent] .helloSent
  | failed : StartShows dir [.changed .connecting .closed] .closed

theorem shows_startPeer (hnew : (self.cellOf s).state = .connecting) :
    ∃ l st, Leaves self (self.startPeer ord) s l st ∧ StartShows self.direction l st := by
  unfold startPeer
  cases hdir : self.direction with
  | incoming =>
    have hsame := exec_setState_self ord self s
    have hnone := events_setState ord self s .connecting
    rw [hnew] at hsame
    rw [hnew, if_pos rfl] at hnone
    refine ⟨[], .connecting, ⟨?_, ?_⟩, .incoming rfl⟩
    · rw [events_bind, hnone, hsame, Outcome.done_collect, pure_eq, events_ret, List.nil_append]
    · rw [exec_bind, hsame, Outcome.done_andThen]
      exact hnew
  | outgoing =>
    have hlink := (self.cellOf s).sameLink_trySend
      (.hello ⟨self.config.keepaliveInterval.asSecs.toUInt32, s.world.mb.isServer⟩)
    have hsend := exec_sendMessage self [] s
      (.hello ⟨self.config.keepaliveInterval.asSecs.toUInt32, s.world.mb.isServer⟩)
    rcases hr : (self.cellOf s).trySend (.hello ⟨self.config.keepaliveInterval.asSecs.toUInt32,
      s.world.mb.isServer⟩) with ⟨r, c⟩
    rw [hr] at hlink hsend
    have hstate : (self.cellOf (self.withCell s c)).state = .connecting := by
      rw [cellOf_withCell, hlink.2.1, hnew]
    have hset : ∀ {newState : ConnectionState} (b : Bool), .connecting ≠ newState →
        Leaves self (do self.setState ord newState; return b) (self.withCell s c)
          [.changed .connecting newState] newState := by
      intro newState b hne
      have henter := leaves_setState_enter ord self (self.withCell s c) newState
        (by rwa [hstate]) (by rw [hstate]; decide) (fun _ ↦ .ret b)
      rwa [hstate] at henter
    cases r with
    | error e =>
      refine ⟨_, _, .after_still ((talks_still self).reading _ _) (exec_reading [] s rfl _) ?_,
        .failed⟩
      exact .after_still ((talks_still self).sendMessage _) hsend (hset false (by decide))
    | ok u =>
      refine ⟨_, _, .after_still ((talks_still self).reading _ _) (exec_reading [] s rfl _) ?_,
        .outgoing rfl⟩
      exact .after_still ((talks_still self).sendMessage _) hsend (hset true (by decide))

end Rounds

structure Logged where
  connection : Connection
  log : List (Option Round × Event)

/-- The other tasks of the node may do anything but change the state of the connection. -/
inductive Step : Logged → Logged → Prop
  | start (s : Node) (log : List (Option Round × Event)) : Step ⟨⟨s, .starting⟩, log⟩
    ⟨Connection.start ord self s,
      log ++ (events (view self) [] (self.startPeer ord) s).map (none, ·)⟩
  | round (s : Node) (t : Timers) (log : List (Option Round × Event)) (r : Round) :
    Ready (self.cellOf s) t r → Step ⟨⟨s, .running t⟩, log⟩
      ⟨round ord self r t s,
        log ++ (events (view self) [] (self.selectRound ord r t) s).map (some r, ·)⟩
  | others (s s' : Node) (phase : Phase) (log : List (Option Round × Event)) :
    (self.cellOf s').state = (self.cellOf s).state → Step ⟨⟨s, phase⟩, log⟩ ⟨⟨s', phase⟩, log⟩

/-- The connection advanced on a HELLO with a non-zero interval. -/
def Accepted (x : Option Round × Event) : Prop :=
  ∃ r hello old new, x = (some r, .changed old new) ∧ r.won = .frame (.message (.hello hello)) ∧
    hello.keepaliveInterval ≠ 0

def newState : Option Round × Event → Option ConnectionState
  | (_, .changed _ new) => some new
  | (_, .cleanup) => none

def Reached (log : List (Option Round × Event)) : Prop :=
  ∃ x ∈ log, newState x = some .established

instance (log : List (Option Round × Event)) : Decidable (Reached log) :=
  inferInstanceAs (Decidable (∃ x ∈ log, _))

def lastState (log : List (Option Round × Event)) : ConnectionState :=
  (log.filterMap newState).getLastD .connecting

/-- The order of the changes of state that a log shows; it ends in the state `st`. -/
structure Orderly (log : List (Option Round × Event)) (st : ConnectionState) : Prop where
  chained : ∀ before r old new, before ++ [(r, .changed old new)] <+: log → old = lastState before
  current : lastState log = st
  greeted : ∀ before r old, before ++ [(r, .changed old .established)] <+: log →
    (∃ round, r = some round ∧ round.won = .frame (.message .keepalive)) ∧
      ∃ x ∈ before, Accepted x
  closed : ∀ r new, (r, .changed .closed new) ∉ log
  left : ∀ r new, (r, .changed .established new) ∈ log → new = .closed

section Logs

variable {log : List (Option Round × Event)} {st st' : ConnectionState} {r : Option Round}

theorem orderly_nil : Orderly [] .connecting where
  chained := by simp
  current := rfl
  greeted := by simp
  closed := by simp
  left := by simp

theorem lastState_append_changed (old : ConnectionState) :
    lastState (log ++ [(r, .changed old st)]) = st := by
  simp [lastState, newState]

theorem lastState_append_cleanup : lastState (log ++ [(r, .cleanup)]) = lastState log := by
  simp [lastState, newState]

theorem prefix_snoc {α : Type} {l l' : List α} {x y : α} (h : l ++ [x] <+: l' ++ [y]) :
    (l = l' ∧ x = y) ∨ l ++ [x] <+: l' := by
  rcases List.prefix_concat_iff.mp h with h | h
  · obtain ⟨hl, hx⟩ := List.append_inj' h rfl
    exact .inl ⟨hl, List.singleton_inj.mp hx⟩
  · exact .inr h

theorem Orderly.changed (h : Orderly log st) (hclosed : st ≠ .closed)
    (hleft : st = .established → st' = .closed)
    (hgreeted : st' = .established →
      (∃ round, r = some round ∧ round.won = .frame (.message .keepalive)) ∧
        ∃ x ∈ log, Accepted x) :
    Orderly (log ++ [(r, .changed st st')]) st' where
  chained before r' old new hpre := by
    rcases prefix_snoc hpre with ⟨rfl, hx⟩ | hpre
    · cases hx
      exact h.current.symm
    · exact h.chained before r' old new hpre
  current := lastState_append_changed st
  greeted before r' old hpre := by
    rcases prefix_snoc hpre with ⟨rfl, hx⟩ | hpre
    · cases hx
      exact hgreeted rfl
    · exact h.greeted before r' old hpre
  closed r' new hmem := by
    rcases List.mem_append.mp hmem with hmem | hmem
    · exact h.closed r' new hmem
    · cases List.mem_singleton.mp hmem
      exact hclosed rfl
  left r' new hmem := by
    rcases List.mem_append.mp hmem with hmem | hmem
    · exact h.left r' new hmem
    · cases List.mem_singleton.mp hmem
      exact hleft rfl

theorem Orderly.cleanup (h : Orderly log st) : Orderly (log ++ [(r, .cleanup)]) st where
  chained before r' old new hpre := by
    rcases prefix_snoc hpre with ⟨-, hx⟩ | hpre
    · cases hx
    · exact h.chained before r' old new hpre
  current := lastState_append_cleanup.trans h.current
  greeted before r' old hpre := by
    rcases prefix_snoc hpre with ⟨-, hx⟩ | hpre
    · cases hx
    · exact h.greeted before r' old hpre
  closed r' new hmem := h.closed r' new (by simpa using hmem)
  left r' new hmem := h.left r' new (by simpa using hmem)

def cleanups (log : List (Option Round × Event)) : ℕ := (log.map Prod.snd).count .cleanup

/-- Which states come after an accepted HELLO only, and what a log has shown of the
connection once it was established. -/
structure Sound (dir : ConnectionDirection) (log : List (Option Round × Event))
    (st : ConnectionState) : Prop extends Orderly log st where
  accepted : (dir = .incoming ∧ st = .helloSent ∨ st = .helloReceived) → ∃ x ∈ log, Accepted x
  reached : st = .established → Reached log
  settled : Reached log → st = .established ∨ st = .closed
  cleaned : cleanups log = if Reached log ∧ st ≠ .established then 1 else 0

variable {dir : ConnectionDirection}

theorem reached_append {l : List (Option Round × Event)} :
    Reached (log ++ l) ↔ Reached log ∨ Reached l := by
  simp only [Reached, List.mem_append, or_and_right, exists_or]

theorem cleanups_append (l : List (Option Round × Event)) :
    cleanups (log ++ l) = cleanups log + cleanups l := by
  simp [cleanups]

theorem Sound.not_reached (h : Sound dir log st) (hest : st ≠ .established) (hclosed : st ≠ .closed) :
    ¬Reached log := fun hr ↦ (h.settled hr).elim hest hclosed

theorem reached_changed_iff : Reached [(r, .changed st st')] ↔ st' = .established := by
  simp [Reached, newState]

/-- Before the connection was established a change of state cleans nothing up. -/
theorem Sound.advanced (h : Sound dir log st) (hest : st ≠ .established) (hclosed : st ≠ .closed)
    (haccepted : (dir = .incoming ∧ st' = .helloSent ∨ st' = .helloReceived) →
      ∃ x ∈ log ++ [(r, .changed st st')], Accepted x)
    (hgreeted : st' = .established →
      (∃ round, r = some round ∧ round.won = .frame (.message .keepalive)) ∧
        ∃ x ∈ log, Accepted x) :
    Sound dir (log ++ [(r, .changed st st')]) st' := by
  have hnot := h.not_reached hest hclosed
  have hreached : Reached (log ++ [(r, .changed st st')]) ↔ st' = .established := by
    rw [reached_append, reached_changed_iff]
    exact or_iff_right hnot
  refine ⟨h.toOrderly.changed hclosed (fun he ↦ absurd he hest) hgreeted, haccepted,
    hreached.mpr, fun hr ↦ .inl (hreached.mp hr), ?_⟩
  have hcount := h.cleaned
  rw [if_neg fun hr ↦ hnot hr.1] at hcount
  rw [cleanups_append, hcount, if_neg fun hr ↦ hr.2 (hreached.mp hr.1)]
  rfl

theorem Sound.lost (h : Sound dir log .established) :
    Sound dir (log ++ [(r, .changed .established .closed), (r, .cleanup)]) .closed := by
  have hsplit : log ++ [(r, .changed .established .closed), (r, .cleanup)] =
      log ++ [(r, .changed .established .closed)] ++ [(r, .cleanup)] := by simp
  have horderly : Orderly (log ++ [(r, .changed .established .closed)]) .closed :=
    h.toOrderly.changed (by decide) (fun _ ↦ rfl) (by simp)
  have hreached : Reached (log ++ [(r, .changed .established .closed), (r, .cleanup)]) :=
    reached_append.mpr (.inl (h.reached rfl))
  refine ⟨hsplit ▸ horderly.cleanup, by simp, by simp, fun _ ↦ .inr rfl, ?_⟩
  have hcount := h.cleaned
  rw [if_neg fun hr ↦ hr.2 rfl] at hcount
  rw [cleanups_append, hcount, if_pos ⟨hreached, by decide⟩]
  rfl

theorem Sound.closing (h : Sound dir log st) :
    Sound dir (log ++ (closing st).map (r, ·)) .closed := by
  unfold Discipline.closing
  by_cases hclosed : st = .closed
  · subst hclosed
    simpa using h
  · by_cases hest : st = .established
    · subst hest
      exact h.lost
    · simp only [hclosed, hest, if_false, List.map_cons, List.map_nil]
      exact h.advanced hest hclosed (by simp) (by simp)

theorem Sound.shows {round : Round} {l : List Event} (h : Sound dir log st)
    (hs : Shows dir round.won st l st') : Sound dir (log ++ l.map (some round, ·)) st' := by
  cases hs with
  | kept => simpa using h
  | greeted hello st' hwon hinterval hadv hne =>
    refine h.advanced hadv.source.1 hadv.source.2 (fun _ ↦ ?_) fun he ↦ absurd he hne
    exact ⟨_, List.mem_append_right _ (List.mem_singleton_self _), round, hello, st, st', rfl, hwon,
      hinterval⟩
  | established hwon hadv =>
    have hwaiting : dir = .incoming ∧ st = .helloSent ∨ st = .helloReceived := by
      cases hadv with
      | accepted => exact .inl ⟨rfl, rfl⟩
      | confirmed => exact .inr rfl
    exact h.advanced hadv.source.1 hadv.source.2 (by simp) fun _ ↦
      ⟨⟨round, rfl, hwon⟩, h.accepted hwaiting⟩
  | closed => exact h.closing

theorem sound_nil : Sound dir [] .connecting :=
  ⟨orderly_nil, by simp, by simp, by simp [Reached], by simp [Reached, cleanups]⟩

theorem Sound.startShows {l : List Event} (hs : StartShows dir l st') :
    Sound dir (l.map (none, ·)) st' := by
  cases hs with
  | incoming hdir => exact sound_nil
  | outgoing hdir => exact sound_nil.advanced (by decide) (by decide) (by simp [hdir]) (by simp)
  | failed => exact sound_nil.advanced (by decide) (by decide) (by simp) (by simp)

end Logs

structure Kept (peer : Peer) (m : Logged) : Prop where
  starting : m.connection.phase = .starting →
    m.log = [] ∧ (peer.cellOf m.connection.node).state = .connecting
  sound : Sound peer.direction m.log (peer.cellOf m.connection.node).state
  returned : m.connection.phase = .returned → (peer.cellOf m.connection.node).state = .closed

structure Fresh (peer : Peer) (m : Logged) : Prop where
  phase : m.connection.phase = .starting
  state : (peer.cellOf m.connection.node).state = .connecting
  log : m.log = []

variable {ord self}

theorem closed_of_returned {r : Round} {t : Timers} {s : Node}
    (h : (Connection.round ord self r t s).phase = .returned) :
    (self.cellOf (Connection.round ord self r t s).node).state = .closed := by
  have hstep := roundStep ord self r t s
  generalize Connection.round ord self r t s = c at hstep h ⊢
  cases hstep with
  | closed s₀ c phase _ hlink _ _ => rw [cellOf_withCell, hlink.2.1, cellOf_parted]
  | _ => cases h

theorem closed_of_start {s : Node} (hnew : (self.cellOf s).state = .connecting)
    (h : (Connection.start ord self s).phase = .returned) :
    (self.cellOf (Connection.start ord self s).node).state = .closed := by
  have hstep := startStep ord hnew
  generalize Connection.start ord self s = c at hstep h ⊢
  cases hstep with
  | incoming _ => cases h
  | outgoing _ _ _ => cases h
  | failed c e _ => rw [cellOf_withCell]

theorem phase_start {s : Node} (hnew : (self.cellOf s).state = .connecting) :
    (Connection.start ord self s).phase ≠ .starting := by
  have hstep := startStep ord hnew
  generalize Connection.start ord self s = c at hstep ⊢
  cases hstep with
  | _ => simp

theorem Kept.step {m m' : Logged} (h : Kept self m) (hstep : Step ord self m m') : Kept self m' := by
  cases hstep with
  | start s log =>
    obtain ⟨rfl, hnew⟩ := h.starting rfl
    obtain ⟨l, st, hleaves, hshows⟩ := shows_startPeer ord self s hnew
    have hnode : (self.cellOf (Connection.start ord self s).node).state = st := by
      rw [Connection.start, node_afterStart, hleaves.state]
    refine ⟨fun hp ↦ absurd hp (phase_start hnew), ?_, closed_of_start hnew⟩
    · rw [hnode, hleaves.shown, List.nil_append]
      exact .startShows hshows
  | round s t log r hready =>
    obtain ⟨l, st, hleaves, hshows⟩ := shows_selectRound ord self s r t
    have hnode : (self.cellOf (Connection.round ord self r t s).node).state = st := by
      rw [Connection.round, node_afterRound, hleaves.state]
    refine ⟨fun hp ↦ absurd hp (roundStep ord self r t s).phase_ne, ?_, closed_of_returned⟩
    rw [hnode, hleaves.shown]
    exact h.sound.shows hshows
  | others s s' phase log hstate =>
    exact ⟨fun hp ↦ ⟨(h.starting hp).1, hstate.trans (h.starting hp).2⟩, hstate ▸ h.sound,
      fun hp ↦ hstate.trans (h.returned hp)⟩

/-- A connection follows its state machine in every run: it is established only by a
KEEPALIVE after an accepted HELLO, leaves `Established` for `Closed` only and `Closed`
never, and has begun its cleanup once when it has left `Established`, and never before. -/
theorem disciplined {m m' : Logged} (hfresh : Fresh self m) (hrun : Run (Step ord self) m m') :
    Orderly m'.log (self.cellOf m'.connection.node).state ∧
      cleanups m'.log = (if Reached m'.log ∧
        (self.cellOf m'.connection.node).state ≠ .established then 1 else 0) ∧
      (m'.connection.phase = .returned → (self.cellOf m'.connection.node).state = .closed ∧
        cleanups m'.log = if Reached m'.log then 1 else 0) := by
  have hinit : Kept self m := by
    refine ⟨fun _ ↦ ⟨hfresh.log, hfresh.state⟩, ?_, fun hp ↦ ?_⟩
    · rw [hfresh.log, hfresh.state]
      exact sound_nil
    · rw [hfresh.phase] at hp
      cases hp
  have hkept : Kept self m' := hrun.invariant hinit fun _ _ hm hstep ↦ hm.step hstep
  refine ⟨hkept.sound.toOrderly, hkept.sound.cleaned, fun hp ↦ ⟨hkept.returned hp, ?_⟩⟩
  have hcount := hkept.sound.cleaned
  simpa [hkept.returned hp] using hcount

theorem reached_of_established {log : List (Option Round × Event)} (h : Orderly log .established) :
    Reached log := by
  have hmem : lastState log ∈ .connecting :: log.filterMap newState := List.getLastD_mem_cons
  rw [h.current] at hmem
  exact List.mem_filterMap.mp ((List.mem_cons.mp hmem).resolve_left (by decide))

open KeepaliveTimeout (acceptor greeting confirmation greeted round_greeting round_confirmation)

def fresh : Logged := ⟨⟨Sample.node true, .starting⟩, []⟩

def ending : Round := ⟨false, .frame .eof, 3, 3⟩

def shutdown : Round := ⟨false, .shutdown, 4, 4⟩

def acceptedNode : Node :=
  acceptor.withCell (Sample.node true) { greeted with state := .established }

theorem cellOf_acceptedNode :
    acceptor.cellOf acceptedNode = { greeted with state := .established } := cellOf_withCell ..

def running : Timers := ⟨some (.fromSecs 5), some 12500000002⟩

theorem Step.of_round {s : Node} {t : Timers} {log : List (Option Round × Event)} {r : Round}
    {c : Connection} (hready : Ready (acceptor.cellOf s) t r)
    (hround : Connection.round .toList acceptor r t s = c) :
    ∃ shown, Step .toList acceptor ⟨⟨s, .running t⟩, log⟩ ⟨c, log ++ shown⟩ :=
  hround ▸ ⟨_, .round s t log r hready⟩

theorem disciplined_shutdown : ∃ m : Logged, Run (Step .toList acceptor) fresh m ∧
    m.connection.phase = .returned ∧ Reached m.log ∧ cleanups m.log = 1 := by
  have hfresh : Fresh acceptor fresh := ⟨rfl, rfl, rfl⟩
  have hunblocked : ¬ Blocks (acceptor.cellOf acceptedNode) := by
    rw [cellOf_acceptedNode]
    exact fun h ↦ h.2 rfl
  let parted := acceptor.parted .toList acceptedNode
  let ended := acceptor.withCell parted { acceptor.cellOf parted with shutdownSignal := true }
  have hclosed : acceptor.cellOf ended =
      { greeted with state := .closed, shutdownSignal := true } := by
    rw [cellOf_withCell, cellOf_parted, cellOf_acceptedNode]
  obtain ⟨l₀, hstart⟩ : ∃ log, Step .toList acceptor fresh
      ⟨⟨Sample.node true, .running .off⟩, log⟩ := ⟨_, .start _ _⟩
  obtain ⟨l₁, hgreet⟩ := @Step.of_round _ _ l₀ greeting _ ⟨by decide, trivial⟩ round_greeting
  obtain ⟨l₂, haccept⟩ := @Step.of_round _ _ (l₀ ++ l₁) confirmation _ ⟨by decide, trivial⟩
    round_confirmation
  have hup : Run (Step .toList acceptor) fresh ⟨⟨acceptedNode, .running running⟩, l₀ ++ l₁ ++ l₂⟩ :=
    .cons hstart (.cons hgreet (.cons haccept .refl))
  obtain ⟨l₃, hend⟩ := @Step.of_round _ running (l₀ ++ l₁ ++ l₂) ending _ ⟨by decide, trivial⟩
    (round_ended rfl _ hunblocked)
  obtain ⟨l₄, hreturn⟩ := @Step.of_round ended running (l₀ ++ l₁ ++ l₂ ++ l₃) shutdown _
    ⟨by decide, congrArg PeerCell.shutdownSignal hclosed⟩ (round_shutdown rfl _ fun h ↦ by
      rw [hclosed] at h
      cases h.1)
  have hrun := (hup.snoc hend).snoc hreturn
  have horderly := (disciplined hfresh hup).1
  rw [show (acceptor.cellOf acceptedNode).state = .established from
    congrArg PeerCell.state cellOf_acceptedNode] at horderly
  have hreached : Reached (l₀ ++ l₁ ++ l₂ ++ l₃ ++ l₄) :=
    reached_append.mpr (.inl (reached_append.mpr (.inl (reached_of_established horderly))))
  have hcount := ((disciplined hfresh hrun).2.2 rfl).2
  rw [if_pos hreached] at hcount
  exact ⟨_, hrun, rfl, hreached, hcount⟩

end MetalBond.Discipline
