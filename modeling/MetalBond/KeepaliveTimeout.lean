import MetalBond.Async.Run
import MetalBond.RoundExec

namespace MetalBond.KeepaliveTimeout

open Async Task Collections HashMap Peer Connection

structure Monitored where
  connection : Connection
  since : Instant

namespace Monitored

variable (self : Peer) (m : Monitored)

def state : ConnectionState := (self.cellOf m.connection.node).state

/-- In `Established` the deadline is 2.5 intervals after the last frame. -/
def Armed : Prop := ∀ t, m.connection.phase = .running t → m.state self = .established →
  ∃ d, Timers.timeoutDuration self.config = some d ∧ t.keepaliveTimeout = some (m.since + d.nanos)

end Monitored

variable (ord : HashOrder) (self : Peer)

def sinceAfter (r : Round) (before after : ConnectionState) (since : Instant) : Instant :=
  match r.won with
  | .frame _ => if before ≠ .established ∧ after = .established then r.later else r.now
  | _ => since

/-- The task starts, or goes through one round, or other tasks do something; these never
change the state of the connection. The label is the round. -/
inductive Step : Monitored → Option Round → Monitored → Prop
  | start (s : Node) (since : Instant) :
    Step ⟨⟨s, .starting⟩, since⟩ none ⟨Connection.start ord self s, since⟩
  | round (s : Node) (t : Timers) (since : Instant) (r : Round) : Ready (self.cellOf s) t r →
    Step ⟨⟨s, .running t⟩, since⟩ (some r)
      ⟨round ord self r t s, sinceAfter r (self.cellOf s).state
        (self.cellOf (round ord self r t s).node).state since⟩
  | others (s s' : Node) (phase : Phase) (since : Instant) :
    (self.cellOf s').state = (self.cellOf s).state →
    Step ⟨⟨s, phase⟩, since⟩ none ⟨⟨s', phase⟩, since⟩

def StepAny (m m' : Monitored) : Prop := ∃ label, Step ord self m label m'

/-- In `Established`, a round that polls the timeout branch also ends with it, or the connection is
not established any more. -/
def KeepsDeadline (m : Monitored) (label : Option Round) (m' : Monitored) : Prop :=
  m.state self = .established → m'.state self = .established →
    ∀ r ∈ label, r.polled → r.won = .timeout

def StepKeeping (m m' : Monitored) : Prop :=
  ∃ label, Step ord self m label m' ∧ KeepsDeadline self m label m'

/-- From its deadline on, a deadline can end a round, and the round closes the connection. -/
def Detects (m : Monitored) : Prop := ∀ t deadline, m.connection.phase = .running t →
  t.keepaliveTimeout = some deadline → ∀ now later, deadline ≤ now →
    Ready (self.cellOf m.connection.node) t ⟨true, .timeout, now, later⟩ ∧
    (self.cellOf (round ord self ⟨true, .timeout, now, later⟩ t m.connection.node).node).state =
      .closed

def Fresh (m : Monitored) : Prop :=
  m.connection.phase = .starting ∧ m.state self = .connecting

structure Supervised (peer : Peer) (m : Monitored) : Prop where
  fresh : m.connection.phase = .starting → m.state peer = .connecting
  armed : m.Armed peer
  ticking : ∀ t, m.connection.phase = .running t → t.keepaliveInterval.isSome →
    m.state peer = .established ∨ m.state peer = .closed
  established : ∀ t, m.connection.phase = .running t → m.state peer = .established →
    t.keepaliveInterval.isSome

variable {ord self} in
theorem Step.of_round {s : Node} {t : Timers} {since since' : Instant} {r : Round} {c : Connection}
    (hready : Ready (self.cellOf s) t r) (hround : Connection.round ord self r t s = c)
    (hsince : sinceAfter r (self.cellOf s).state (self.cellOf c.node).state since = since') :
    Step ord self ⟨⟨s, .running t⟩, since⟩ (some r) ⟨c, since'⟩ := by
  subst hround hsince
  exact .round s t since r hready

section Timers

variable {config : Config} {now : Instant} {t t' : Timers}

theorem interval_polled (p : Bool) : (t.polled p).keepaliveInterval = t.keepaliveInterval := by
  cases p <;> rfl

theorem interval_reset (h : t.reset config now = some t') :
    t'.keepaliveInterval = t.keepaliveInterval := by
  unfold Timers.reset at h
  split at h
  · cases h; rfl
  · split at h
    · cases h
    · obtain ⟨deadline, -, rfl⟩ := Option.map_eq_some_iff.mp h
      rfl

theorem add_eq {d : Duration} {deadline : Instant} (h : now.add d = some deadline) :
    deadline = now + d.nanos := by
  unfold Instant.add at h
  split at h
  · exact (Option.some.inj h).symm
  · cases h

theorem timeout_reset (h : t.reset config now = some t') (hsome : t.keepaliveTimeout.isSome) :
    ∃ d, Timers.timeoutDuration config = some d ∧ t'.keepaliveTimeout = some (now + d.nanos) := by
  unfold Timers.reset at h
  split at h
  · next hnone => simp [hnone] at hsome
  · split at h
    · cases h
    · next d hd =>
      obtain ⟨deadline, hadd, rfl⟩ := Option.map_eq_some_iff.mp h
      exact ⟨d, hd, by rw [add_eq hadd]⟩

theorem timeout_start (h : Timers.start config now = some t) : t.keepaliveInterval.isSome ∧
    ∃ d, Timers.timeoutDuration config = some d ∧ t.keepaliveTimeout = some (now + d.nanos) := by
  unfold Timers.start at h
  split at h
  · cases h
  · next d hd =>
    split at h
    · cases h
    · obtain ⟨deadline, hadd, rfl⟩ := Option.map_eq_some_iff.mp h
      exact ⟨rfl, d, hd, by rw [add_eq hadd]⟩

end Timers

variable {ord self}

theorem Supervised.of_state_ne {m : Monitored} (hstarting : m.connection.phase ≠ .starting)
    (hstate : m.state self ≠ .established)
    (hticking : ∀ t, m.connection.phase = .running t → t.keepaliveInterval.isSome →
      m.state self = .closed) : Supervised self m where
  fresh h := absurd h hstarting
  armed _ _ h := absurd h hstate
  ticking t ht hsome := Or.inr (hticking t ht hsome)
  established _ _ h := absurd h hstate

theorem Supervised.start {s : Node} (hnew : (self.cellOf s).state = .connecting) (since : Instant) :
    Supervised self ⟨Connection.start ord self s, since⟩ := by
  have hstep := startStep ord hnew
  generalize Connection.start ord self s = c at hstep ⊢
  have hoff (t : Timers) (h : Phase.running .off = .running t) : ¬ t.keepaliveInterval.isSome := by
    cases h
    decide
  cases hstep with
  | incoming hdir =>
    refine .of_state_ne (by simp) ?_ fun t ht hsome ↦ absurd hsome (hoff t ht)
    simp [Monitored.state, hnew]
  | outgoing c hdir hsend =>
    refine .of_state_ne (by simp) ?_ fun t ht hsome ↦ absurd hsome (hoff t ht)
    simp [Monitored.state]
  | failed c e hsend =>
    refine .of_state_ne (by simp) ?_ fun t ht ↦ by cases ht
    simp [Monitored.state]

theorem Supervised.running {s : Node} {t : Timers} {since : Instant}
    (hticking : t.keepaliveInterval.isSome →
      (self.cellOf s).state = .established ∨ (self.cellOf s).state = .closed)
    (hest : (self.cellOf s).state = .established → t.keepaliveInterval.isSome ∧
      ∃ d, Timers.timeoutDuration self.config = some d ∧
        t.keepaliveTimeout = some (since + d.nanos)) :
    Supervised self ⟨⟨s, .running t⟩, since⟩ where
  fresh h := by cases h
  armed t' ht h := by
    cases ht
    exact (hest h).2
  ticking t' ht hsome := by
    cases ht
    exact hticking hsome
  established t' ht h := by
    cases ht
    exact (hest h).1

theorem Supervised.round {s : Node} {t : Timers} {since : Instant} {r : Round}
    (h : Supervised self ⟨⟨s, .running t⟩, since⟩)
    (hkeeps : KeepsDeadline self ⟨⟨s, .running t⟩, since⟩ (some r)
      ⟨round ord self r t s, sinceAfter r (self.cellOf s).state
        (self.cellOf (round ord self r t s).node).state since⟩) :
    Supervised self ⟨round ord self r t s, sinceAfter r (self.cellOf s).state
      (self.cellOf (round ord self r t s).node).state since⟩ := by
  have hpolled (hest : (self.cellOf s).state = .established)
      (hafter : (self.cellOf (Connection.round ord self r t s).node).state = .established)
      (hwon : r.won ≠ .timeout) : t.polled r.polled = t := by
    have hr := hkeeps hest hafter r rfl
    cases hp : r.polled with
    | true => exact absurd (hr hp) hwon
    | false => rfl
  have hticking : (t.polled r.polled).keepaliveInterval.isSome →
      (self.cellOf s).state = .established ∨ (self.cellOf s).state = .closed := by
    rw [interval_polled]
    exact h.ticking t rfl
  have hkept (hwon : r.won ≠ .timeout) (hest : (self.cellOf s).state = .established)
      (hafter : (self.cellOf (Connection.round ord self r t s).node).state = .established) :
      (t.polled r.polled).keepaliveInterval.isSome ∧ ∃ d, Timers.timeoutDuration self.config =
        some d ∧ (t.polled r.polled).keepaliveTimeout = some (since + d.nanos) := by
    rw [hpolled hest hafter hwon]
    exact ⟨h.established t rfl hest, h.armed t rfl hest⟩
  have hstep := roundStep ord self r t s
  generalize Connection.round ord self r t s = c at hstep hkept ⊢
  cases hstep with
  | closed s₀ c phase hbreaks hlink hstarting hphase =>
    have hclosed : (self.cellOf (self.withCell (self.parted ord s₀) c)).state = .closed := by
      rw [cellOf_withCell, hlink.2.1, cellOf_parted]
    exact .of_state_ne hstarting (by rw [Monitored.state, hclosed]; decide) fun _ _ _ ↦ hclosed
  | processed msg t₁ s' hwon hreset hdone hstay =>
    have hinterval := interval_reset hreset
    refine .running (fun hsome ↦ ?_) fun hest ↦ ?_
    · rw [hinterval] at hsome
      rw [process_state_eq ord self hdone (hticking hsome)]
      exact hticking hsome
    · have hsome : t₁.keepaliveInterval.isSome :=
        Option.isSome_iff_ne_none.mpr fun hn ↦ hstay ⟨hest, hn⟩
      have hold : (self.cellOf s).state = .established := by
        rw [← process_state_eq ord self hdone (hticking (hinterval ▸ hsome)), hest]
      obtain ⟨-, d, -, htimeout⟩ := hkept (by rw [hwon]; simp) hold hest
      simp only [sinceAfter, hwon, hold, hest, ne_eq, not_true_eq_false, false_and, if_false]
      exact ⟨hsome, timeout_reset hreset (by rw [htimeout]; rfl)⟩
  | established msg t₁ t₂ s' hwon hreset hdone hest hoff hstart =>
    have hstarted : (self.cellOf (self.started s')).state = .established := by
      rw [(self.sameLink_started s').2.1, hest]
    have hnew : (self.cellOf s).state ≠ .established := fun hold ↦ by
      have hsome := (hkept (by rw [hwon]; simp) hold hstarted).1
      rw [← interval_reset hreset, hoff] at hsome
      cases hsome
    obtain ⟨hsome, htimeout⟩ := timeout_start hstart
    refine .running (fun _ ↦ Or.inl hstarted) fun _ ↦ ⟨hsome, ?_⟩
    simpa only [sinceAfter, hwon, hstarted, ne_eq, hnew, not_false_eq_true, and_self, if_true]
  | sent hwon =>
    have hlink := (self.cellOf s).sameLink_dequeued
    refine .running (fun hsome ↦ ?_) fun hest ↦ ?_
    · simpa only [cellOf_withCell, hlink.2.1] using hticking hsome
    · have hbefore := hest
      rw [cellOf_withCell, hlink.2.1] at hbefore
      simpa only [sinceAfter, hwon] using hkept (by rw [hwon]; simp) hbefore hest
  | ticked hwon hdir hest =>
    have hlink := (self.cellOf s).sameLink_pinged
    refine .running (fun hsome ↦ ?_) fun hafter ↦ ?_
    · simpa only [cellOf_withCell, hlink.2.1] using hticking hsome
    · simpa only [sinceAfter, hwon] using hkept (by rw [hwon]; simp) hest hafter
  | idled hwon hping =>
    refine .running hticking fun hest ↦ ?_
    simpa only [sinceAfter, hwon] using hkept (by rw [hwon]; simp) hest hest
  | overflowed msg s' hwon hs' =>
    refine ⟨fun h ↦ (by cases h), fun t ht ↦ (by cases ht), fun t ht ↦ (by cases ht),
      fun t ht ↦ (by cases ht)⟩

theorem Supervised.step {m m' : Monitored} (h : Supervised self m)
    (hstep : StepKeeping ord self m m') : Supervised self m' := by
  obtain ⟨label, hstep, hkeeps⟩ := hstep
  cases hstep with
  | start s since => exact .start (h.fresh rfl) since
  | round s t since r hready => exact h.round hkeeps
  | others s s' phase since hstate =>
    have hm : ∀ st, Monitored.state self ⟨⟨s', phase⟩, since⟩ = st ↔
        Monitored.state self ⟨⟨s, phase⟩, since⟩ = st := fun st ↦ by
      rw [Monitored.state, Monitored.state, hstate]
    constructor
    · exact fun hp ↦ (hm _).mpr (h.fresh hp)
    · exact fun t ht hest ↦ h.armed t ht ((hm _).mp hest)
    · exact fun t ht hsome ↦ (h.ticking t ht hsome).imp (hm _).mpr (hm _).mpr
    · exact fun t ht hest ↦ h.established t ht ((hm _).mp hest)

theorem Supervised.of_fresh {m : Monitored} (h : Fresh self m) : Supervised self m := by
  obtain ⟨hphase, hstate⟩ := h
  constructor
  · exact fun _ ↦ hstate
  · exact fun t ht ↦ by rw [hphase] at ht; cases ht
  · exact fun t ht ↦ by rw [hphase] at ht; cases ht
  · exact fun t ht ↦ by rw [hphase] at ht; cases ht

theorem round_timeout (t : Timers) (s : Node) (now later : Instant) :
    (self.cellOf (round ord self ⟨true, .timeout, now, later⟩ t s).node).state = .closed := by
  have hstep := roundStep ord self ⟨true, .timeout, now, later⟩ t s
  generalize Connection.round ord self _ t s = c at hstep ⊢
  cases hstep with
  | closed s₀ c phase hbreaks hlink hstarting hphase =>
    rw [cellOf_withCell, hlink.2.1, cellOf_parted]
  | processed msg t₁ s' hwon => cases hwon
  | established msg t₁ t₂ s' hwon => cases hwon
  | sent hwon => cases hwon
  | ticked hwon => cases hwon
  | idled hwon => cases hwon
  | overflowed msg s' hwon => cases hwon

theorem Monitored.detects (m : Monitored) : Detects ord self m := by
  intro t deadline _ htimeout now later hnow
  refine ⟨⟨fun _ ↦ by rw [htimeout]; rfl, rfl, deadline, htimeout, hnow⟩, round_timeout t _ _ _⟩

/-- As long as no round polls the timeout branch, ends with another one and leaves the connection
established, the deadline is armed in `Established`, and a silent peer is closed. -/
theorem armed_of_run {m m' : Monitored} (hfresh : Fresh self m)
    (hrun : Run (StepKeeping ord self) m m') :
    m'.Armed self ∧ Detects ord self m' := by
  have hinv : Supervised self m' :=
    hrun.invariant (.of_fresh hfresh) fun _ _ hm hstep ↦ hm.step hstep
  exact ⟨hinv.armed, m'.detects⟩

/-- Any other round takes the deadline away. -/
theorem not_armed_of_polled {s : Node} {t t' : Timers} {r : Round} (hpolled : r.polled = true)
    (hold : t.keepaliveInterval.isSome)
    (hphase : (round ord self r t s).phase = .running t')
    (hest : (self.cellOf (round ord self r t s).node).state = .established) :
    t'.keepaliveTimeout = none := by
  have htaken : (t.polled r.polled).keepaliveTimeout = none := by rw [hpolled]; rfl
  have hstep := roundStep ord self r t s
  generalize Connection.round ord self r t s = c at hstep hphase hest
  cases hstep with
  | closed s₀ c phase hbreaks hlink hstarting hblocks =>
    rw [cellOf_withCell, hlink.2.1, cellOf_parted] at hest
    cases hest
  | processed msg t₁ s' hwon hreset hdone hstay =>
    cases hphase
    simp only [Timers.reset, htaken, Option.some.injEq] at hreset
    rw [← hreset, htaken]
  | established msg t₁ t₂ s' hwon hreset hdone hest' hoff hstart =>
    rw [← interval_polled r.polled, ← interval_reset hreset, hoff] at hold
    cases hold
  | sent hwon => cases hphase; exact htaken
  | ticked hwon hdir hest' => cases hphase; exact htaken
  | idled hwon hping => cases hphase; exact htaken
  | overflowed msg s' hwon hs' => cases hphase

def acceptor : Peer := Sample.peer 1 .incoming

def fresh : Monitored := ⟨⟨Sample.node true, .starting⟩, 0⟩

def greeting : Round := ⟨false, .frame (.message (.hello ⟨5, false⟩)), 1, 1⟩

def confirmation : Round := ⟨false, .frame (.message .keepalive), 2, 2⟩

def greeted : PeerCell :=
  ⟨false, .helloSent, ∅, ⟨⟨[], [.hello ⟨5, true⟩], false⟩, by decide⟩, false⟩

theorem round_greeting : round ord acceptor greeting .off (Sample.node true) =
    ⟨acceptor.withCell (Sample.node true) greeted, .running .off⟩ := by
  refine round_processed rfl rfl (exec_processHello ord acceptor _ ⟨5, false⟩) ?_
  rw [cellOf_withCell]
  decide

theorem round_confirmation :
    round ord acceptor confirmation .off (acceptor.withCell (Sample.node true) greeted) =
      ⟨acceptor.withCell (Sample.node true) { greeted with state := .established },
        .running ⟨some (.fromSecs 5), some 12500000002⟩⟩ := by
  have hdone := exec_processKeepalive ord acceptor (acceptor.withCell (Sample.node true) greeted)
  have hon : acceptor.onKeepalive ord (acceptor.withCell (Sample.node true) greeted) greeted =
      (.ok (), { greeted with state := .established }) := by
    have hsynced := @Peer.synced_empty ord (acceptor.withCell (Sample.node true) greeted) rfl rfl
      { greeted with state := .established }
    rw [← hsynced]
    rfl
  rw [cellOf_withCell, withCell_withCell, hon] at hdone
  exact round_established rfl rfl hdone (congrArg PeerCell.state (cellOf_withCell ..)) rfl rfl

def accepted : Monitored :=
  ⟨⟨acceptor.withCell (Sample.node true) { greeted with state := .established },
    .running ⟨some (.fromSecs 5), some 12500000002⟩⟩, 2⟩

theorem accepted_of_fresh :
    Run (StepKeeping ord acceptor) fresh accepted := by
  have hkeeps (m m' : Monitored) {r : Round} (hr : r.polled = false) :
      KeepsDeadline acceptor m (some r) m' := by
    intro _ _ r' hr' hpolled
    cases hr'
    rw [hr] at hpolled
    cases hpolled
  have hstart : StepKeeping ord acceptor fresh ⟨⟨Sample.node true, .running .off⟩, 0⟩ := by
    have hrun : Connection.start ord acceptor (Sample.node true) =
        ⟨Sample.node true, .running .off⟩ := rfl
    exact ⟨none, hrun ▸ .start _ 0, fun _ _ r hr ↦ by cases hr⟩
  have hgreeting : StepKeeping ord acceptor ⟨⟨Sample.node true, .running .off⟩, 0⟩
      ⟨⟨acceptor.withCell (Sample.node true) greeted, .running .off⟩, 1⟩ := by
    refine ⟨some greeting, .of_round ?_ round_greeting ?_, hkeeps _ _ rfl⟩
    · exact ⟨fun h ↦ (by cases h), trivial⟩
    · rw [cellOf_withCell]
      rfl
  have hconfirmation : StepKeeping ord acceptor
      ⟨⟨acceptor.withCell (Sample.node true) greeted, .running .off⟩, 1⟩ accepted := by
    refine ⟨some confirmation, .of_round ?_ round_confirmation ?_, hkeeps _ _ rfl⟩
    · exact ⟨fun h ↦ (by cases h), trivial⟩
    · rw [cellOf_withCell, cellOf_withCell]
      rfl
  exact .cons hstart (.cons hgreeting (.cons hconfirmation .refl))

theorem armed_of_run_sample : accepted.Armed acceptor ∧ Detects .toList acceptor accepted :=
  armed_of_run ⟨rfl, rfl⟩ accepted_of_fresh

def reply : Round := ⟨true, .outgoing true, 3, 3⟩

/-- The round that sends the reply to the greeting has polled the timeout branch, and the
connection stays established without a deadline. -/
theorem reply_disarms : ∃ m : Monitored,
    Run (StepAny .toList acceptor) fresh m ∧ ¬ m.Armed acceptor := by
  have hcell : acceptor.cellOf accepted.connection.node = { greeted with state := .established } :=
    cellOf_withCell ..
  have hstep : Step .toList acceptor accepted (some reply) ⟨⟨acceptor.withCell
      accepted.connection.node (acceptor.cellOf accepted.connection.node).dequeued,
      .running ⟨some (.fromSecs 5), none⟩⟩, 2⟩ := by
    refine .of_round ⟨fun _ ↦ rfl, ?_⟩ (round_sent rfl _ _) rfl
    simp [reply, greeted]
  have hany : ∀ m m', StepKeeping .toList acceptor m m' → StepAny .toList acceptor m m' := by
    intro m m' h
    obtain ⟨label, hstep, -⟩ := h
    exact ⟨label, hstep⟩
  have hrun : Run (StepAny .toList acceptor) fresh accepted := Run.mono accepted_of_fresh hany
  refine ⟨_, hrun.snoc ⟨_, hstep⟩, ?_⟩
  intro harmed
  have hest : (acceptor.cellOf accepted.connection.node).dequeued.state = .established := by
    rw [(PeerCell.sameLink_dequeued _).2.1, hcell]
  obtain ⟨d, -, h⟩ := harmed _ rfl ((congrArg PeerCell.state (cellOf_withCell ..)).trans hest)
  cases h

end MetalBond.KeepaliveTimeout
