import MetalBond.KeepaliveTimeout
import MetalBond.TableExec

namespace MetalBond.Disconnection

open Async Task Collections HashMap Peer Connection

/-- A connection, and whether the history of its rounds has left something to clean up. -/
structure Tracked where
  connection : Connection
  unclean : Bool

variable (ord : HashOrder) (self : Peer)

/-- Does an `UPDATE` of the peer enter the table? -/
def learns (s : Node) (msg : Pb.Update) : Bool :=
  match parseUpdate msg with
  | .ok (.add, vni, _) => decide ¬ self.Ignores vni s
  | _ => false

/-- The messages that make a node remember something of the sender. -/
def records (s : Node) : Branch → Bool
  | .frame (.message (.subscribe _)) => true
  | .frame (.message (.update msg)) => learns self s msg
  | _ => false

/-- Outside `Established`, a recorded message has to be cleaned up; a later round that starts
in `Established` does it. -/
def uncleanAfter (r : Round) (before : Node) (unclean : Bool) : Bool :=
  decide ((self.cellOf before).state ≠ .established) && (unclean || records self before r.won)

/-- The other tasks of the node neither learn routes from the connection's address nor
subscribe it, and they leave its state and its record of subscriptions alone. -/
structure Others (peer : Peer) (s s' : Node) : Prop where
  state : (peer.cellOf s').state = (peer.cellOf s).state
  subscriptions : (peer.cellOf s').subscribedVnisRemote = (peer.cellOf s).subscribedVnisRemote
  routes : ∀ r, some peer.remoteAddr ∈ s'.world.mb.routeTable.sources r →
    some peer.remoteAddr ∈ s.world.mb.routeTable.sources r
  subscribers : ∀ vni, peer.remoteAddr ∈ valueAt s'.world.mb.subscribers vni →
    peer.remoteAddr ∈ valueAt s.world.mb.subscribers vni

inductive Step : Tracked → Tracked → Prop
  | start (s : Node) (unclean : Bool) :
    Step ⟨⟨s, .starting⟩, unclean⟩ ⟨Connection.start ord self s, unclean⟩
  | round (s : Node) (t : Timers) (unclean : Bool) (r : Round) : Ready (self.cellOf s) t r →
    Step ⟨⟨s, .running t⟩, unclean⟩
      ⟨round ord self r t s, uncleanAfter self r s unclean⟩
  | others (s s' : Node) (phase : Phase) (unclean : Bool) : Others self s s' →
    Step ⟨⟨s, phase⟩, unclean⟩ ⟨⟨s', phase⟩, unclean⟩

/-- The node remembers nothing of the connection's address. -/
structure Clean (addr : SocketAddr) (s : Node) : Prop where
  routes : ∀ r, some addr ∉ s.world.mb.routeTable.sources r
  subscribers : ∀ vni, addr ∉ valueAt s.world.mb.subscribers vni

structure Fresh (peer : Peer) (m : Tracked) : Prop where
  phase : m.connection.phase = .starting
  cell : peer.cellOf m.connection.node = .new
  clean : Clean peer.remoteAddr m.connection.node
  tracked : m.unclean = false

def Mirrored (s : Node) : Prop := ∀ vni, self.remoteAddr ∈ valueAt s.world.mb.subscribers vni →
  vni ∈ (self.cellOf s).subscribedVnisRemote

structure Forgotten (peer : Peer) (s : Node) : Prop where
  routes : ∀ r, some peer.remoteAddr ∉ s.world.mb.routeTable.sources r
  subscriptions : (peer.cellOf s).subscribedVnisRemote = ∅

variable {ord self}

theorem Mirrored.clean {s : Node} (h : Mirrored self s) (hf : Forgotten self s) :
    Clean self.remoteAddr s := by
  refine ⟨hf.routes, fun vni hmem ↦ ?_⟩
  have hsub := h vni hmem
  rw [hf.subscriptions] at hsub
  exact absurd hsub (Finset.notMem_empty vni)

section WithCell

variable {s : Node} {c : PeerCell}
  (hc : c.subscribedVnisRemote = (self.cellOf s).subscribedVnisRemote)

include hc

theorem Mirrored.withCell (h : Mirrored self s) : Mirrored self (self.withCell s c) := by
  intro vni hmem
  rw [cellOf_withCell, hc]
  exact h vni hmem

theorem Forgotten.withCell (h : Forgotten self s) : Forgotten self (self.withCell s c) :=
  ⟨h.routes, by rw [cellOf_withCell, hc]; exact h.subscriptions⟩

end WithCell

theorem Mirrored.subscribed {s : Node} (h : Mirrored self s) (vni : Vni) :
    Mirrored self (self.subscribed vni s) := by
  intro v hmem
  rw [cellOf_subscribed, Finset.mem_insert]
  have hsubs := subscribers_addSubscriber self.remoteAddr vni v s.world
  rw [show valueAt (self.subscribed vni s).world.mb.subscribers v = _ from hsubs] at hmem
  split at hmem
  · next heq => exact Or.inl heq
  · exact Or.inr (h v hmem)

theorem Mirrored.unsubscribed {s : Node} (h : Mirrored self s) (vni : Vni) :
    Mirrored self (self.unsubscribed vni s) := by
  intro v hmem
  rw [cellOf_unsubscribed, Finset.mem_erase]
  have hsubs := subscribers_removeSubscriber self.remoteAddr vni v s.world
  rw [show valueAt (self.unsubscribed vni s).world.mb.subscribers v = _ from hsubs] at hmem
  split at hmem
  · exact absurd hmem (Finset.notMem_erase _ _)
  · next hne => exact ⟨hne, h v hmem⟩

theorem Mirrored.tableOnly {s s' : Node} (h : Mirrored self s) (hs : TableOnly s s') :
    Mirrored self s' := by
  intro vni hmem
  rw [hs.mb_eq] at hmem
  rw [show self.cellOf s' = self.cellOf s from congrFun hs.cell_eq self.id]
  exact h vni hmem

theorem Forgotten.forgets {s s' : Node} (h : Forgotten self s)
    (hs : Forgets self.remoteAddr s s') : Forgotten self s' := by
  refine ⟨fun r hr ↦ h.routes r (hs.2 r hr), ?_⟩
  rw [show self.cellOf s' = self.cellOf s from congrFun hs.1.cell_eq self.id]
  exact h.subscriptions

theorem Mirrored.process {msg : GeneratedMessage} {s s' : Node} {r : Except Error Unit}
    (h : Mirrored self s) (hdone : exec [] (self.process ord msg) s = .done r [] s') :
    Mirrored self s' := by
  cases msg with
  | hello hello =>
    cases (exec_processHello ord self s hello).symm.trans hdone
    exact h.withCell (answers_onHello self hello _).subscriptions
  | keepalive =>
    cases (exec_processKeepalive ord self s).symm.trans hdone
    exact h.withCell (answers_onKeepalive ord self s _).subscriptions
  | subscribe sub =>
    have hsub := (exec_processSubscribe ord self s sub).symm.trans hdone
    split at hsub
    · cases hsub
      exact h.subscribed sub.vni
    · cases hsub
      exact (h.subscribed sub.vni).withCell (PeerCell.sameLink_sendRoutes _ _).2.2
  | unsubscribe unsub =>
    obtain ⟨s'', hrun, hforgets⟩ := exec_processUnsubscribe ord self s unsub
    cases hrun.symm.trans hdone
    exact (h.unsubscribed unsub.vni).tableOnly hforgets.1
  | update msg =>
    obtain ⟨r', s'', hrun, htable, -⟩ := exec_processUpdate self s msg
    cases hrun.symm.trans hdone
    exact h.tableOnly htable

theorem forgets_of_not_learns {msg : Pb.Update} {s s' : Node} {r : Except Error Unit}
    (hmsg : learns self s msg = false) (hdone : exec [] (self.processUpdate msg) s = .done r [] s') :
    Forgets self.remoteAddr s s' := by
  obtain ⟨r', s'', hrun, -, hforgets⟩ := exec_processUpdate self s msg
  cases hrun.symm.trans hdone
  by_cases hadd : isAdd msg = false
  · exact hforgets hadd
  · have hshared := shared_processUpdate self (s := s) msg
    rw [hrun] at hshared
    have hsame : s' = s := by
      unfold isAdd at hadd
      unfold learns at hmsg
      unfold updated at hshared
      split at hadd
      · next hparse =>
        simp only [hparse, decide_eq_false_iff_not, not_not] at hmsg
        simp only [hparse, if_pos hmsg] at hshared
        exact hshared
      · exact absurd rfl hadd
    rw [hsame]
    exact Std.Refl.refl s

theorem Forgotten.process {msg : GeneratedMessage} {s s' : Node} {r : Except Error Unit}
    (h : Forgotten self s) (hmsg : records self s (.frame (.message msg)) = false)
    (hdone : exec [] (self.process ord msg) s = .done r [] s') : Forgotten self s' := by
  cases msg with
  | hello hello =>
    cases (exec_processHello ord self s hello).symm.trans hdone
    exact h.withCell (answers_onHello self hello _).subscriptions
  | keepalive =>
    cases (exec_processKeepalive ord self s).symm.trans hdone
    exact h.withCell (answers_onKeepalive ord self s _).subscriptions
  | subscribe sub => cases hmsg
  | unsubscribe unsub =>
    obtain ⟨s'', hrun, hforgets⟩ := exec_processUnsubscribe ord self s unsub
    cases hrun.symm.trans hdone
    refine Forgotten.forgets ⟨fun r ↦ ?_, ?_⟩ hforgets
    · rw [routeTable_unsubscribed]
      exact h.routes r
    · rw [cellOf_unsubscribed, h.subscriptions, Finset.erase_empty]
  | update msg =>
    exact h.forgets (forgets_of_not_learns hmsg hdone)

theorem Mirrored.parted {s : Node} (h : Mirrored self s) : Mirrored self (self.parted ord s) := by
  intro vni hmem
  have hsubs : (self.parted ord s).world.mb.subscribers = s.world.mb.subscribers := by
    unfold Peer.parted
    split <;> rfl
  rw [hsubs] at hmem
  rw [cellOf_parted]
  exact h vni hmem

theorem Forgotten.parted {s : Node} (hblocks : ¬ Blocks (self.cellOf s))
    (h : (self.cellOf s).state ≠ .established → Forgotten self s) :
    Forgotten self (self.parted ord s) := by
  refine ⟨fun r ↦ ?_, ?_⟩
  · unfold Peer.parted
    split
    · simp [dropRoutes]
    · next hest => exact (h hest).routes r
  · rw [cellOf_parted]
    by_cases hest : (self.cellOf s).state = .established
    · exact not_not.mp fun hsubs ↦ hblocks ⟨hest, hsubs⟩
    · exact (h hest).subscriptions

structure Tidy (peer : Peer) (m : Tracked) : Prop where
  fresh : m.connection.phase = .starting → (peer.cellOf m.connection.node).state = .connecting
  mirrored : Mirrored peer m.connection.node
  returned : m.connection.phase = .returned →
    (peer.cellOf m.connection.node).state ≠ .established
  forgotten : m.connection.phase ≠ .blocked → m.connection.phase ≠ .panicked →
    (peer.cellOf m.connection.node).state ≠ .established → m.unclean = false →
    Forgotten peer m.connection.node

theorem Tidy.of_fresh {m : Tracked} (h : Fresh self m) : Tidy self m where
  fresh _ := by rw [h.cell]; rfl
  mirrored vni hmem := absurd hmem (h.clean.subscribers vni)
  returned hret := by rw [h.phase] at hret; cases hret
  forgotten _ _ _ _ := ⟨h.clean.routes, by rw [h.cell]; rfl⟩

theorem Tidy.start {s : Node} {unclean : Bool} (h : Tidy self ⟨⟨s, .starting⟩, unclean⟩) :
    Tidy self ⟨Connection.start ord self s, unclean⟩ := by
  have hnew := h.fresh rfl
  have hforgotten := h.forgotten (by simp) (by simp) (by rw [hnew]; decide)
  have hlink := (self.cellOf s).sameLink_trySend
    (.hello ⟨self.config.keepaliveInterval.asSecs.toUInt32, s.world.mb.isServer⟩)
  have hstep := startStep ord hnew
  generalize Connection.start ord self s = c at hstep ⊢
  cases hstep with
  | incoming hdir => exact ⟨by simp, h.mirrored, by simp, fun _ _ _ ↦ hforgotten⟩
  | outgoing c hdir hsend =>
    rw [hsend] at hlink
    exact ⟨by simp, h.mirrored.withCell hlink.2.2, by simp,
      fun _ _ _ hu ↦ (hforgotten hu).withCell hlink.2.2⟩
  | failed c e hsend =>
    rw [hsend] at hlink
    exact ⟨by simp, h.mirrored.withCell hlink.2.2, by simp,
      fun _ _ _ hu ↦ (hforgotten hu).withCell hlink.2.2⟩

theorem Tidy.round {s : Node} {t : Timers} {unclean : Bool} {r : Round}
    (h : Tidy self ⟨⟨s, .running t⟩, unclean⟩) :
    Tidy self ⟨round ord self r t s, uncleanAfter self r s unclean⟩ := by
  have hforgotten (hest : (self.cellOf s).state ≠ .established)
      (hu : uncleanAfter self r s unclean = false) :
      Forgotten self s ∧ records self s r.won = false := by
    simp only [uncleanAfter, hest, ne_eq, not_false_eq_true, decide_true, Bool.true_and,
      Bool.or_eq_false_iff] at hu
    exact ⟨h.forgotten (by simp) (by simp) hest hu.1, hu.2⟩
  have hprocess {msg : GeneratedMessage} {s' : Node} {result : Except Error Unit}
      (hwon : r.won = .frame (.message msg))
      (hdone : exec [] (self.process ord msg) s = .done result [] s')
      (hest : (self.cellOf s').state ≠ .established)
      (hu : uncleanAfter self r s unclean = false) : Forgotten self s' := by
    have hold : (self.cellOf s).state ≠ .established := fun hold ↦
      hest ((process_state_eq ord self hdone (Or.inl hold)).trans hold)
    obtain ⟨hs, hrecords⟩ := hforgotten hold hu
    exact hs.process (hwon ▸ hrecords) hdone
  have hcell {c : PeerCell} (hlink : (self.cellOf s).SameLink c) (hwon : records self s r.won = false)
      (t : Timers) : Tidy self ⟨⟨self.withCell s c, .running t⟩,
        uncleanAfter self r s unclean⟩ := by
    refine ⟨by simp, h.mirrored.withCell hlink.2.2, by simp, fun _ _ hest hu ↦ ?_⟩
    rw [cellOf_withCell, hlink.2.1] at hest
    exact (hforgotten hest hu).1.withCell hlink.2.2
  have hstep := roundStep ord self r t s
  generalize Connection.round ord self r t s = c at hstep ⊢
  cases hstep with
  | closed s₀ c phase hbreaks hlink hstarting hphase =>
    have hclosed : (self.cellOf (self.withCell (self.parted ord s₀) c)).state = .closed := by
      rw [cellOf_withCell, hlink.2.1, cellOf_parted]
    have hmirrored : Mirrored self s₀ := by
      cases hbreaks with
      | event c hc => exact h.mirrored.withCell hc.2.2
      | message msg e s₀ hwon hdone => exact h.mirrored.process hdone
    refine ⟨fun hp ↦ absurd hp hstarting, hmirrored.parted.withCell hlink.2.2,
      fun _ ↦ by rw [hclosed]; decide, fun hnb _ _ hu ↦ ?_⟩
    refine (Forgotten.parted (hphase hnb) fun hest ↦ ?_).withCell hlink.2.2
    cases hbreaks with
    | event c hc =>
      rw [cellOf_withCell, hc.2.1] at hest
      exact (hforgotten hest hu).1.withCell hc.2.2
    | message msg e s₀ hwon hdone => exact hprocess hwon hdone hest hu
  | processed msg t₁ s' hwon hreset hdone hstay =>
    exact ⟨by simp, h.mirrored.process hdone, by simp,
      fun _ _ hest hu ↦ hprocess hwon hdone hest hu⟩
  | established msg t₁ t₂ s' hwon hreset hdone hest hoff hstart =>
    have hlink := self.sameLink_started s'
    have hmirrored := (h.mirrored.process hdone).withCell hlink.2.2
    rw [withCell_started] at hmirrored
    exact ⟨by simp, hmirrored, by simp, fun _ _ hne ↦ absurd (hlink.2.1.trans hest) hne⟩
  | sent hwon => exact hcell (self.cellOf s).sameLink_dequeued (by rw [hwon]; rfl) _
  | ticked hwon hdir hest => exact hcell (self.cellOf s).sameLink_pinged (by rw [hwon]; rfl) _
  | idled hwon hping =>
    have hidle := hcell (.refl _) (by rw [hwon]; rfl) (t.polled r.polled)
    rwa [withCell_cellOf] at hidle
  | overflowed msg s' hwon hs' =>
    refine ⟨by simp, ?_, by simp, fun _ hp ↦ absurd rfl hp⟩
    rcases hs' with ⟨rfl, -⟩ | ⟨hdone, -⟩
    · exact h.mirrored
    · exact h.mirrored.process hdone

theorem Tidy.step {m m' : Tracked} (h : Tidy self m) (hstep : Step ord self m m') :
    Tidy self m' := by
  cases hstep with
  | start s unclean => exact h.start
  | round s t unclean r hready => exact h.round
  | others s s' phase unclean hothers =>
    refine ⟨fun hp ↦ hothers.state ▸ h.fresh hp, fun vni hmem ↦ ?_,
      fun hp ↦ hothers.state ▸ h.returned hp, fun hb hp hest hu ↦ ?_⟩
    · rw [hothers.subscriptions]
      exact h.mirrored vni (hothers.subscribers vni hmem)
    · have hf := h.forgotten hb hp (hothers.state ▸ hest) hu
      exact ⟨fun r hr ↦ hf.routes r (hothers.routes r hr),
        hothers.subscriptions.trans hf.subscriptions⟩

/-- A connection whose task has returned has left nothing behind, if everything that it
recorded outside `Established` was followed by a round that started in it. -/
theorem clean_of_returned {m m' : Tracked} (hfresh : Fresh self m)
    (hrun : Run (Step ord self) m m') (hreturned : m'.connection.phase = .returned)
    (hclean : m'.unclean = false) : Clean self.remoteAddr m'.connection.node := by
  have hinv : Tidy self m' := hrun.invariant (.of_fresh hfresh) fun _ _ hm hstep ↦ hm.step hstep
  exact hinv.mirrored.clean
    (hinv.forgotten (by simp [hreturned]) (by simp [hreturned]) (hinv.returned hreturned) hclean)

theorem Step.of_round {s : Node} {t : Timers} {unclean unclean' : Bool} {r : Round}
    {c : Connection} (hready : Ready (self.cellOf s) t r)
    (hround : Connection.round ord self r t s = c)
    (hunclean : uncleanAfter self r s unclean = unclean') :
    Step ord self ⟨⟨s, .running t⟩, unclean⟩ ⟨c, unclean'⟩ := by
  subst hround hunclean
  exact .round s t unclean r hready

open KeepaliveTimeout (acceptor greeting confirmation greeted round_greeting round_confirmation)

def fresh : Tracked := ⟨⟨Sample.node true, .starting⟩, false⟩

theorem fresh_acceptor : Fresh acceptor fresh := by
  refine ⟨rfl, rfl, ⟨fun r ↦ ?_, fun vni ↦ ?_⟩, rfl⟩
  · simp [fresh, Sample.node, MetalBondState.new]
  · simp [fresh, Sample.node, MetalBondState.new]

def announcement : Round := ⟨false, .frame (.message (.update (Sample.update .add))), 3, 3⟩

def ending : Round := ⟨false, .frame .eof, 4, 4⟩

def shutdown : Round := ⟨false, .shutdown, 5, 5⟩

def running (timeout : ℕ) : Timers := ⟨some (.fromSecs 5), some timeout⟩

def acceptedNode : Node :=
  acceptor.withCell (Sample.node true) { greeted with state := .established }

def learnedNode : Node :=
  (exec [] (acceptor.processUpdate (Sample.update .add)) acceptedNode).shared

theorem cellOf_learnedNode :
    acceptor.cellOf learnedNode = { greeted with state := .established } := rfl

theorem learned_of_fresh : Run (Step .toList acceptor) fresh
    ⟨⟨learnedNode, .running (running 12500000003)⟩, false⟩ := by
  have hgreet : Step .toList acceptor ⟨⟨Sample.node true, .running .off⟩, false⟩
      ⟨⟨acceptor.withCell (Sample.node true) greeted, .running .off⟩, false⟩ :=
    .of_round ⟨by decide, trivial⟩ round_greeting rfl
  have haccept : Step .toList acceptor
      ⟨⟨acceptor.withCell (Sample.node true) greeted, .running .off⟩, false⟩
      ⟨⟨acceptedNode, .running (running 12500000002)⟩, false⟩ :=
    .of_round ⟨by decide, trivial⟩ round_confirmation rfl
  have hlearn : Step .toList acceptor ⟨⟨acceptedNode, .running (running 12500000002)⟩, false⟩
      ⟨⟨learnedNode, .running (running 12500000003)⟩, false⟩ :=
    .of_round (r := announcement) ⟨by decide, trivial⟩ rfl rfl
  exact .cons (.start _ _) (.cons hgreet (.cons haccept (.cons hlearn .refl)))

/-- The connection is established, a route is announced on it, and it ends. -/
theorem clean_of_returned_sample : ∃ s : Node,
    some acceptor.remoteAddr ∈ learnedNode.world.mb.routeTable.sources Sample.route ∧
    Run (Step .toList acceptor) ⟨⟨learnedNode, .running (running 12500000003)⟩, false⟩
      ⟨⟨s, .returned⟩, false⟩ ∧ Clean acceptor.remoteAddr s := by
  have hunblocked : ¬ Blocks (acceptor.cellOf learnedNode) := by
    rw [cellOf_learnedNode]
    exact fun h ↦ h.2 rfl
  let parted := acceptor.parted .toList learnedNode
  let ended := acceptor.withCell parted { acceptor.cellOf parted with shutdownSignal := true }
  have hclosed : acceptor.cellOf ended =
      { greeted with state := .closed, shutdownSignal := true } := by
    rw [cellOf_withCell, cellOf_parted, cellOf_learnedNode]
  have hend : Step .toList acceptor ⟨⟨learnedNode, .running (running 12500000003)⟩, false⟩
      ⟨⟨ended, .running (running 12500000003)⟩, false⟩ :=
    .of_round (r := ending) ⟨by decide, trivial⟩ (round_ended rfl _ hunblocked) rfl
  have hreturn : Step .toList acceptor ⟨⟨ended, .running (running 12500000003)⟩, false⟩
      ⟨⟨acceptor.parted .toList
        (acceptor.withCell ended { acceptor.cellOf ended with shutdownSignal := false }),
        .returned⟩, false⟩ := by
    refine .of_round (r := shutdown) ⟨by decide, ?_⟩ (round_shutdown rfl _ fun h ↦ ?_) ?_
    · exact congrArg PeerCell.shutdownSignal hclosed
    · rw [hclosed] at h
      exact ConnectionState.noConfusion h.1
    · exact Bool.and_false _
  have hrun : Run (Step .toList acceptor) _ _ := .cons hend (.cons hreturn .refl)
  exact ⟨_, by decide, hrun,
    clean_of_returned fresh_acceptor (learned_of_fresh.trans hrun) rfl rfl⟩

/-- The connection ends right after a route was announced on it, and the route stays. -/
theorem early_update_remains : ∃ m : Tracked, Run (Step .toList acceptor) fresh m ∧
    m.connection.phase = .returned ∧ ¬ Clean acceptor.remoteAddr m.connection.node := by
  let announced := (Connection.round .toList acceptor announcement .off (Sample.node true)).node
  let ended := (Connection.round .toList acceptor ending .off announced).node
  have hannounce : Step .toList acceptor ⟨⟨Sample.node true, .running .off⟩, false⟩
      ⟨⟨announced, .running .off⟩, true⟩ := .of_round (r := announcement) ⟨by decide, trivial⟩ rfl rfl
  have hend : Step .toList acceptor ⟨⟨announced, .running .off⟩, true⟩
      ⟨⟨ended, .running .off⟩, true⟩ := .of_round (r := ending) ⟨by decide, trivial⟩ rfl rfl
  have hshutdown : Step .toList acceptor ⟨⟨ended, .running .off⟩, true⟩
      ⟨Connection.round .toList acceptor shutdown .off ended, true⟩ :=
    .of_round (r := shutdown) ⟨by decide, rfl⟩ rfl rfl
  refine ⟨_, .cons (.start _ _) (.cons hannounce (.cons hend (.cons hshutdown .refl))), rfl,
    fun hclean ↦ hclean.routes Sample.route ?_⟩
  decide

end MetalBond.Disconnection
