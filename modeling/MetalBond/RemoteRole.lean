import MetalBond.ConnectionTasks
import MetalBond.Deliveries
import MetalBond.KeepaliveTimeout

namespace MetalBond.RemoteRole

open Async Task Collections Peer

/-- Several connections of one node, each of them between two rounds. -/
structure Sessions (ι : Type) where
  node : Node
  phase : ι → Phase

def role (self : Peer) (s : Node) : Bool × ConnectionState :=
  ((self.cellOf s).isRemoteServer, (self.cellOf s).state)

/-- The states in which a HELLO does not advance the handshake. -/
def Stray (self : Peer) (state : ConnectionState) : Prop :=
  match self.direction with
  | .incoming => state ≠ .connecting ∧ state ≠ .helloReceived
  | .outgoing => state ≠ .helloSent

/-- The HELLO is turned away, or it says of its sender what is known already. -/
def Repeats (c : PeerCell) (hello : Pb.Hello) : Prop :=
  hello.keepaliveInterval = 0 ∨ hello.isServer = c.isRemoteServer

section Step

variable {ι : Type} [DecidableEq ι] (ord : HashOrder) (peers : ι → Peer)

def Sessions.put (l : Sessions ι) (i : ι) (c : Connection) : Sessions ι :=
  ⟨c.node, Function.update l.phase i c.phase⟩

/-- A connection starts or goes through one round, or other tasks do something; these change
neither the roles nor the mode of the node. The label is the round. -/
inductive Step (l : Sessions ι) : Option (ι × Round) → Sessions ι → Prop
  | start (i : ι) : l.phase i = .starting →
    Step l none (l.put i (Connection.start ord (peers i) l.node))
  | round (i : ι) (t : Timers) (r : Round) : l.phase i = .running t →
    Ready ((peers i).cellOf l.node) t r →
    Step l (some (i, r)) (l.put i (Connection.round ord (peers i) r t l.node))
  | others (s : Node) : (∀ i, role (peers i) s = role (peers i) l.node) →
    s.world.mb.isServer = l.node.world.mb.isServer → Step l none { l with node := s }

def StepWith (Allowed : Sessions ι → Option (ι × Round) → Prop) (l l' : Sessions ι) : Prop :=
  ∃ label, Step ord peers l label l' ∧ Allowed l label

/-- A HELLO that arrives in a state in which it does not advance the handshake repeats what is
known. -/
def Steady (l : Sessions ι) (label : Option (ι × Round)) : Prop := ∀ i r hello,
  label = some (i, r) → r.won = .frame (.message (.hello hello)) →
  Stray (peers i) ((peers i).cellOf l.node).state → Repeats ((peers i).cellOf l.node) hello

def Fresh (l : Sessions ι) : Prop :=
  ∀ i, l.phase i = .starting ∧ ((peers i).cellOf l.node).state = .connecting

structure Attends (l : Sessions ι) (i : ι) : Prop where
  established : ((peers i).cellOf l.node).state = .established
  listed : l.node.world.mb.peers.lookup (peers i).remoteAddr = some (peers i)

/-- The distributor passes nothing from one server to another. -/
def skips (u : InternalUpdate) (target : Peer) (s : Node) : Bool :=
  fromServer u.sourcePeer s && (target.cellOf s).isRemoteServer

/-- As long as a connection is established, it takes the other side for the same, and the
verdict of the filter on what one peer sends, or the application, is the same. -/
structure Fixed (l l' : Sessions ι) : Prop where
  flag : ∀ i, ((peers i).cellOf l.node).state = .established →
    ((peers i).cellOf l'.node).state = .established →
    ((peers i).cellOf l'.node).isRemoteServer = ((peers i).cellOf l.node).isRemoteServer
  verdict : ∀ (u : InternalUpdate) (source : Option ι) (i : ι),
    u.sourcePeer = source.map (fun j ↦ (peers j).remoteAddr) →
    (∀ j ∈ source, Attends peers l j ∧ Attends peers l' j) →
    Attends peers l i → Attends peers l' i → skips u (peers i) l'.node = skips u (peers i) l.node

end Step

section Hello

variable {ord : HashOrder} {self : Peer}

theorem onHello_stray {hello : Pb.Hello} {c : PeerCell} (hstray : Stray self c.state) :
    self.onHello hello c = if hello.keepaliveInterval = 0 then (.error .zeroKeepaliveInterval, c)
      else (.ok (), { c with isRemoteServer := hello.isServer }) := by
  unfold onHello
  split
  · rfl
  · unfold Stray at hstray
    cases hdir : self.direction with
    | incoming =>
      rw [hdir] at hstray
      have hnone : ¬ (c.state = .connecting ∨ c.state = .helloReceived) := by
        rintro (h | h)
        · exact hstray.1 h
        · exact hstray.2 h
      simp only [if_neg hnone]
    | outgoing =>
      rw [hdir] at hstray
      simp only [if_neg hstray]

/-- A HELLO that does not advance the handshake leaves the role as it is if and only if it
repeats it. -/
theorem hello_keeps_iff {s : Node} {hello : Pb.Hello}
    (hstray : Stray self (self.cellOf s).state) :
    role self (exec [] (self.processHello ord hello) s).shared = role self s ↔
      Repeats (self.cellOf s) hello := by
  rw [exec_processHello, Outcome.shared_done, role, cellOf_withCell, onHello_stray hstray, role,
    Repeats]
  split
  · next hzero => simp [hzero]
  · next hzero => simp [hzero]

end Hello

section Round

variable {ord : HashOrder} {self : Peer} {s s' : Node}

theorem role_of_sameLink {c : PeerCell} (h : (self.cellOf s).SameLink c) :
    role self (self.withCell s c) = role self s := by
  rw [role, cellOf_withCell, h.1, h.2.1, role]

theorem role_of_cell (h : self.cellOf s' = self.cellOf s) : role self s' = role self s := by
  rw [role, h, role]

theorem sameLink_onKeepalive {c : PeerCell} (hest : c.state = .established) :
    c.SameLink (self.onKeepalive ord s c).2 := by
  unfold onKeepalive
  cases self.direction with
  | incoming => simpa [hest] using c.sameLink_trySend .keepalive
  | outgoing => simpa [hest] using PeerCell.SameLink.refl c

theorem role_process {msg : GeneratedMessage} {r : Except Error Unit}
    (hest : (self.cellOf s).state = .established)
    (hsteady : ∀ hello, msg = .hello hello → Repeats (self.cellOf s) hello)
    (hdone : exec [] (self.process ord msg) s = .done r [] s') : role self s' = role self s := by
  cases msg with
  | hello hello =>
    have hstray : Stray self (self.cellOf s).state := by
      rw [hest, Stray]
      cases self.direction <;> simp
    have hkeeps : role self (exec [] (self.processHello ord hello) s).shared = role self s :=
      (hello_keeps_iff hstray).mpr (hsteady hello rfl)
    rwa [show exec [] (self.processHello ord hello) s = _ from hdone] at hkeeps
  | keepalive =>
    cases (exec_processKeepalive ord self s).symm.trans hdone
    exact role_of_sameLink (sameLink_onKeepalive hest)
  | subscribe sub =>
    have hsub := (exec_processSubscribe ord self s sub).symm.trans hdone
    have hcell : role self (self.subscribed sub.vni s) = role self s := by
      rw [role, cellOf_subscribed, role]
    split at hsub
    · cases hsub
      exact hcell
    · cases hsub
      exact (role_of_sameLink (PeerCell.sameLink_sendRoutes _ _)).trans hcell
  | unsubscribe unsub =>
    obtain ⟨s'', hrun, hforgets⟩ := exec_processUnsubscribe ord self s unsub
    cases hrun.symm.trans hdone
    refine (role_of_cell (congrFun hforgets.1.cell_eq self.id)).trans ?_
    rw [role, Connection.cellOf_unsubscribed, role]
  | update msg =>
    obtain ⟨r', s'', hrun, htable, -⟩ := exec_processUpdate self s msg
    cases hrun.symm.trans hdone
    exact role_of_cell (congrFun htable.cell_eq self.id)

/-- An established connection is closed by a round, or it keeps its role. -/
theorem role_round (r : Round) (t : Timers) (hest : (self.cellOf s).state = .established)
    (hsteady : ∀ hello, r.won = .frame (.message (.hello hello)) →
      Repeats (self.cellOf s) hello) :
    (self.cellOf (Connection.round ord self r t s).node).state = .closed ∨
      role self (Connection.round ord self r t s).node = role self s := by
  have hprocess {msg : GeneratedMessage} {u : Except Error Unit} {s' : Node}
      (hwon : r.won = .frame (.message msg))
      (hdone : exec [] (self.process ord msg) s = .done u [] s') : role self s' = role self s :=
    role_process hest (fun hello hmsg ↦ hsteady hello (by rw [hwon, hmsg])) hdone
  have hstep := Connection.roundStep ord self r t s
  generalize Connection.round ord self r t s = c at hstep ⊢
  cases hstep with
  | closed s₀ c phase hbreaks hlink hstarting hphase =>
    rw [cellOf_withCell, hlink.2.1, cellOf_parted]
    exact .inl rfl
  | processed msg t₁ s' hwon hreset hdone hstays => exact .inr (hprocess hwon hdone)
  | established msg t₁ t₂ s' hwon hreset hdone hest' hoff hstart =>
    have hlink := self.sameLink_started s'
    refine .inr (Eq.trans ?_ (hprocess hwon hdone))
    rw [role, hlink.1, hlink.2.1, role]
  | sent hwon => exact .inr (role_of_sameLink (self.cellOf s).sameLink_dequeued)
  | ticked hwon hdir hest' => exact .inr (role_of_sameLink (self.cellOf s).sameLink_pinged)
  | idled hwon hping => exact .inr rfl
  | overflowed msg s' hwon hs' =>
    rcases hs' with ⟨rfl, -⟩ | ⟨hdone, -⟩
    · exact .inr rfl
    · exact .inr (hprocess hwon hdone)

end Round

/-- Only the peer's own cell may differ, and data that all share. -/
def Elsewhere (q : Peer) (s s' : Node) : Prop :=
  s'.world.mb.isServer = s.world.mb.isServer ∧
    ∀ id, id ≠ q.id → s'.world.cell id = s.world.cell id

section Elsewhere

variable {q : Peer} {s s' : Node}

instance : Std.Refl (Elsewhere q) := ⟨fun _ ↦ ⟨rfl, fun _ _ ↦ rfl⟩⟩

instance : IsTrans Node (Elsewhere q) := ⟨fun _ _ _ h h' ↦
  ⟨h'.1.trans h.1, fun id hne ↦ (h'.2 id hne).trans (h.2 id hne)⟩⟩

theorem elsewhere_modifyCell (s : Node) (f : PeerCell → PeerCell) :
    Elsewhere q s { s with world := s.world.modifyCell q.id f } :=
  ⟨rfl, fun _ hne ↦ World.modifyCell_cell_of_ne _ hne f⟩

theorem acts_elsewhere : q.Acts (Elsewhere q) where
  refl := inferInstance
  sent s msg := ⟨rfl, fun _ hne ↦ World.setCell_cell_of_ne _ hne _⟩
  cell s f _ := elsewhere_modifyCell s f
  send _ _ := ⟨rfl, fun _ _ ↦ rfl⟩
  update s action vni dest nh := by
    have htable := Peer.tableOnly_applyUpdate s action vni dest nh (some q.remoteAddr)
    exact ⟨htable.sameTasks.isServer, fun id _ ↦ congrFun htable.cell_eq id⟩
  removeRoutes _ _ := ⟨rfl, fun _ _ ↦ rfl⟩
  subscribe _ _ := ⟨rfl, fun _ _ ↦ rfl⟩
  unsubscribe s vni := by
    have hcells := Peer.cell_removeSubscriber q.remoteAddr vni s.world
    exact ⟨by rw [Peer.mb_removeSubscriber], fun id _ ↦ congrFun hcells id⟩
  forget _ _ := ⟨rfl, fun _ _ ↦ rfl⟩

theorem elsewhere_takeOutgoing (s : Node) :
    Elsewhere q s { s with world := q.takeOutgoing s.world } := by
  obtain ⟨tx, htake⟩ := q.takeOutgoing_eq s.world
  rw [htake]
  exact elsewhere_modifyCell s _

theorem elsewhere_round (ord : HashOrder) (r : Round) (t : Timers) (s : Node) :
    Elsewhere q s (Connection.round ord q r t s).node := by
  have hconfined : Confined (Elsewhere q) (q.selectRound ord r t) :=
    acts_elsewhere.composes.selectRound ord (.modify elsewhere_takeOutgoing) r t
  rw [Connection.node_round]
  exact hconfined.exec [] s

theorem elsewhere_start (ord : HashOrder) (s : Node) :
    Elsewhere q s (Connection.start ord q s).node := by
  rw [Connection.node_start]
  exact (acts_elsewhere.composes.startPeer ord).exec [] s

theorem role_of_elsewhere {p : Peer} (h : Elsewhere q s s') (hne : p.id ≠ q.id) :
    role p s' = role p s :=
  role_of_cell (h.2 p.id hne)

end Elsewhere

section Run

variable {ι : Type} [DecidableEq ι] {ord : HashOrder} {peers : ι → Peer} {l l' : Sessions ι}
variable {label : Option (ι × Round)} {i : ι}

theorem Step.of_connection (hids : Function.Injective fun i ↦ (peers i).id)
    (hstep : Step ord peers l label l') (i : ι) :
    (l'.phase i = l.phase i ∧ role (peers i) l'.node = role (peers i) l.node) ∨
      (l.phase i = .starting ∧ l' = l.put i (Connection.start ord (peers i) l.node)) ∨
      ∃ t r, label = some (i, r) ∧ l' = l.put i (Connection.round ord (peers i) r t l.node) := by
  cases hstep with
  | start j hphase =>
    by_cases hi : i = j
    · subst hi
      exact .inr (.inl ⟨hphase, rfl⟩)
    · exact .inl ⟨Function.update_of_ne hi _ _,
        role_of_elsewhere (elsewhere_start ord l.node) (hids.ne hi)⟩
  | round j t r hphase hready =>
    by_cases hi : i = j
    · subst hi
      exact .inr (.inr ⟨t, r, rfl, rfl⟩)
    · exact .inl ⟨Function.update_of_ne hi _ _,
        role_of_elsewhere (elsewhere_round ord r t l.node) (hids.ne hi)⟩
  | others s hrole hserver => exact .inl ⟨rfl, hrole i⟩

theorem Step.isServer (hstep : Step ord peers l label l') :
    l'.node.world.mb.isServer = l.node.world.mb.isServer := by
  cases hstep with
  | start j hphase => exact (elsewhere_start ord l.node).1
  | round j t r hphase hready => exact (elsewhere_round ord r t l.node).1
  | others s hrole hserver => exact hserver

def Waits (peers : ι → Peer) (l : Sessions ι) : Prop :=
  ∀ i, l.phase i = .starting → ((peers i).cellOf l.node).state = .connecting

theorem Waits.step (hids : Function.Injective fun i ↦ (peers i).id) (h : Waits peers l)
    (hstep : Step ord peers l label l') : Waits peers l' := by
  intro i hphase
  rcases hstep.of_connection hids i with ⟨hsame, hrole⟩ | ⟨hold, rfl⟩ | ⟨t, r, -, rfl⟩
  · rw [hsame] at hphase
    exact (congrArg Prod.snd hrole).trans (h i hphase)
  · have hstart := Connection.startStep ord (h i hold)
    simp only [Sessions.put, Function.update_self] at hphase
    generalize Connection.start ord (peers i) l.node = c at hstart hphase
    cases hstart <;> cases hphase
  · simp only [Sessions.put, Function.update_self] at hphase
    exact absurd hphase (Connection.roundStep ord (peers i) r t l.node).phase_ne

structure Stays (peers : ι → Peer) (i : ι) (l l' : Sessions ι) : Prop where
  started : l'.phase i ≠ .starting
  role : ((peers i).cellOf l'.node).state = .closed ∨
    ((peers i).cellOf l'.node).state = .established ∧
      role (peers i) l'.node = role (peers i) l.node

theorem Stays.step {l₀ : Sessions ι} (hids : Function.Injective fun i ↦ (peers i).id)
    (h : Stays peers i l₀ l) (hstep : StepWith ord peers (Steady peers) l l') :
    Stays peers i l₀ l' := by
  obtain ⟨label, hstep, hsteady⟩ := hstep
  obtain ⟨hstarted, hrole⟩ := h
  rcases hstep.of_connection hids i with ⟨hphase, hsame⟩ | ⟨hold, rfl⟩ | ⟨t, r, rfl, rfl⟩
  · have hstate : ((peers i).cellOf l'.node).state = ((peers i).cellOf l.node).state :=
      congrArg Prod.snd hsame
    rw [← hphase] at hstarted
    rw [← hstate] at hrole
    exact ⟨hstarted, hrole.imp_right fun h ↦ ⟨h.1, hsame.trans h.2⟩⟩
  · exact absurd hold hstarted
  · refine ⟨?_, ?_⟩
    · simp only [Sessions.put, Function.update_self]
      exact (Connection.roundStep ord (peers i) r t l.node).phase_ne
    · rcases hrole with hclosed | ⟨hest, hrole⟩
      · exact .inl (Connection.round_of_closed hclosed)
      · have hrepeats (hello : Pb.Hello) (hwon : r.won = .frame (.message (.hello hello))) :
            Repeats ((peers i).cellOf l.node) hello := by
          refine hsteady i r hello rfl hwon ?_
          rw [hest, Stray]
          cases (peers i).direction <;> simp
        refine (role_round r t hest hrepeats).imp_right fun hkept ↦ ?_
        have hstate : ((peers i).cellOf (Connection.round ord (peers i) r t l.node).node).state =
            ((peers i).cellOf l.node).state := congrArg Prod.snd hkept
        exact ⟨hstate.trans hest, hkept.trans hrole⟩

theorem flag_of_run (hids : Function.Injective fun i ↦ (peers i).id) (hwaits : Waits peers l)
    (hrun : Run (StepWith ord peers (Steady peers)) l l') (i : ι)
    (hest : ((peers i).cellOf l.node).state = .established)
    (hest' : ((peers i).cellOf l'.node).state = .established) :
    ((peers i).cellOf l'.node).isRemoteServer = ((peers i).cellOf l.node).isRemoteServer := by
  have hstarted : l.phase i ≠ .starting := fun hphase ↦ by
    cases hest.symm.trans (hwaits i hphase)
  have hstays : Stays peers i l l' :=
    hrun.invariant ⟨hstarted, .inr ⟨hest, rfl⟩⟩ fun _ _ h hstep ↦ h.step hids hstep
  rcases hstays.role with hclosed | ⟨-, hrole⟩
  · cases hest'.symm.trans hclosed
  · exact congrArg Prod.fst hrole

theorem fixed_of_run (hids : Function.Injective fun i ↦ (peers i).id) (hwaits : Waits peers l)
    (hrun : Run (StepWith ord peers (Steady peers)) l l') : Fixed peers l l' := by
  have hflag := flag_of_run hids hwaits hrun
  let Kept (d : Sessions ι) : Prop := d.node.world.mb.isServer = l.node.world.mb.isServer
  have hserver : Kept l' := by
    refine hrun.invariant rfl fun _ _ h hstep ↦ ?_
    obtain ⟨label, hstep, -⟩ := hstep
    exact hstep.isServer.trans h
  refine ⟨hflag, fun u source i hu hsource htarget htarget' ↦ ?_⟩
  have hfrom : fromServer u.sourcePeer l'.node = fromServer u.sourcePeer l.node := by
    rw [hu]
    cases source with
    | none => exact hserver
    | some j =>
      obtain ⟨hlisted, hlisted'⟩ := hsource j rfl
      simp only [Option.map_some, fromServer, hlisted.listed, hlisted'.listed]
      exact hflag j hlisted.established hlisted'.established
  rw [skips, skips, hfrom, hflag i htarget.established htarget'.established]

/-- A HELLO in a state in which it does not advance the handshake writes what it says all the
same. In every run in which each of them repeats what is known, nothing changes. -/
theorem role_fixed (hids : Function.Injective fun i ↦ (peers i).id) :
    (∀ (self : Peer) (s : Node) (hello : Pb.Hello), Stray self (self.cellOf s).state →
      (role self (exec [] (self.processHello ord hello) s).shared = role self s ↔
        Repeats (self.cellOf s) hello)) ∧
    ∀ l₀ l l' : Sessions ι, Fresh peers l₀ → Run (StepWith ord peers (Steady peers)) l₀ l →
      Run (StepWith ord peers (Steady peers)) l l' → Fixed peers l l' := by
  refine ⟨fun self s hello hstray ↦ hello_keeps_iff hstray, fun l₀ l l' hfresh hrun hrun' ↦ ?_⟩
  have hwaits : Waits peers l := by
    refine hrun.invariant (fun i _ ↦ (hfresh i).2) fun _ _ h hstep ↦ ?_
    obtain ⟨label, hstep, -⟩ := hstep
    exact h.step hids hstep
  exact fixed_of_run hids hwaits hrun'

end Run

section Sample

open KeepaliveTimeout (acceptor greeting confirmation greeted round_greeting round_confirmation)

def acceptors : Unit → Peer := fun _ ↦ acceptor

def fresh : Sessions Unit := ⟨Sample.node true, fun _ ↦ .starting⟩

def accepted : Connection :=
  ⟨acceptor.withCell (Sample.node true) { greeted with state := .established },
    .running ⟨some (.fromSecs 5), some 12500000002⟩⟩

theorem step_put {l : Sessions Unit} {s : Node} {t : Timers} {r : Round} {c : Connection}
    {Allowed : Sessions Unit → Option (Unit × Round) → Prop} (hready : Ready (acceptor.cellOf s) t r)
    (hround : Connection.round .toList acceptor r t s = c)
    (hallowed : Allowed (l.put () ⟨s, .running t⟩) (some ((), r))) :
    StepWith .toList acceptors Allowed (l.put () ⟨s, .running t⟩) (l.put () c) := by
  have hput : (l.put () ⟨s, .running t⟩).put () c = l.put () c := by simp [Sessions.put]
  have hstep : Step .toList acceptors (l.put () ⟨s, .running t⟩) (some ((), r)) _ :=
    .round () t r rfl hready
  have hnode : Connection.round .toList (acceptors ()) r t (l.put () ⟨s, .running t⟩).node = c :=
    hround
  rw [hnode, hput] at hstep
  exact ⟨_, hstep, hallowed⟩

theorem accepted_of_fresh :
    Run (StepWith .toList acceptors (Steady acceptors)) fresh (fresh.put () accepted) := by
  have hstart : Step .toList acceptors fresh none (fresh.put () ⟨Sample.node true, .running .off⟩) :=
    .start () rfl
  refine .cons ⟨none, hstart, ?_⟩ (.cons (step_put ?_ round_greeting ?_)
    (.cons (step_put ?_ round_confirmation ?_) .refl))
  · intro i r hello hlabel
    cases hlabel
  · exact ⟨fun h ↦ (by cases h), trivial⟩
  · intro i r hello hlabel _ hstray
    exact absurd rfl hstray.1
  · exact ⟨fun h ↦ (by cases h), trivial⟩
  · intro i r hello hlabel hwon
    cases hlabel
    cases hwon

def laterHello (isServer : Bool) : Round := ⟨false, .frame (.message (.hello ⟨5, isServer⟩)), 3, 3⟩

def greetedAgain (isServer : Bool) : Connection :=
  ⟨acceptor.withCell accepted.node
      { greeted with state := .established, isRemoteServer := isServer },
    .running ⟨some (.fromSecs 5), some 12500000003⟩⟩

theorem cellOf_greetedAgain (isServer : Bool) : acceptor.cellOf (greetedAgain isServer).node =
    { greeted with state := .established, isRemoteServer := isServer } := cellOf_withCell ..

theorem round_laterHello (isServer : Bool) : Connection.round .toList acceptor
    (laterHello isServer) ⟨some (.fromSecs 5), some 12500000002⟩ accepted.node =
      greetedAgain isServer := by
  have hcell : acceptor.cellOf accepted.node = { greeted with state := .established } :=
    cellOf_withCell ..
  have hdone := exec_processHello .toList acceptor accepted.node ⟨5, isServer⟩
  have hstray : Stray acceptor (acceptor.cellOf accepted.node).state := by
    rw [hcell]
    exact ⟨by decide, by decide⟩
  rw [onHello_stray hstray, hcell] at hdone
  cases isServer with
  | false => exact Connection.round_kept rfl rfl hdone (by simp)
  | true => exact Connection.round_kept rfl rfl hdone (by simp)

/-- The HELLO is repeated as it was. -/
theorem role_fixed_acceptor :
    Connection.round .toList acceptor (laterHello false)
        ⟨some (.fromSecs 5), some 12500000002⟩ accepted.node = greetedAgain false ∧
      (acceptor.cellOf accepted.node).state = .established ∧
      (acceptor.cellOf (greetedAgain false).node).state = .established ∧
      Fixed acceptors (fresh.put () accepted) (fresh.put () (greetedAgain false)) := by
  have hstep : StepWith .toList acceptors (Steady acceptors) (fresh.put () accepted)
      (fresh.put () (greetedAgain false)) := by
    refine step_put ⟨fun h ↦ (by cases h), trivial⟩ (round_laterHello false) ?_
    intro i r hello hlabel hwon _
    cases hlabel
    cases hwon
    exact .inr rfl
  refine ⟨round_laterHello false, congrArg PeerCell.state (cellOf_withCell ..),
    congrArg PeerCell.state (cellOf_greetedAgain false), ?_⟩
  exact (@role_fixed Unit _ .toList acceptors fun _ _ _ ↦ rfl).2 fresh _ _ (fun _ ↦ ⟨rfl, rfl⟩)
    accepted_of_fresh (.cons hstep .refl)

/-- The other side says that it is no server, the connection becomes established, and then it
says that it is one. -/
theorem second_hello_counts : ¬ ∀ l₀ l l' : Sessions Unit, Fresh acceptors l₀ →
    Run (StepWith .toList acceptors fun _ _ ↦ True) l₀ l →
    Run (StepWith .toList acceptors fun _ _ ↦ True) l l' → Fixed acceptors l l' := by
  intro hall
  have hrun : Run (StepWith .toList acceptors fun _ _ ↦ True) fresh (fresh.put () accepted) := by
    refine Run.mono accepted_of_fresh fun l l' h ↦ ?_
    obtain ⟨label, hstep, -⟩ := h
    exact ⟨label, hstep, trivial⟩
  have hstep : StepWith .toList acceptors (fun _ _ ↦ True) (fresh.put () accepted)
      (fresh.put () (greetedAgain true)) :=
    step_put ⟨fun h ↦ (by cases h), trivial⟩ (round_laterHello true) trivial
  have hfixed := hall _ _ _ (fun _ ↦ ⟨rfl, rfl⟩) hrun (.cons hstep .refl)
  have hflag := hfixed.flag () (congrArg PeerCell.state (cellOf_withCell ..))
    (congrArg PeerCell.state (cellOf_greetedAgain true))
  have hnow := congrArg PeerCell.isRemoteServer (cellOf_greetedAgain true)
  have hthen : (acceptor.cellOf accepted.node).isRemoteServer = false :=
    congrArg PeerCell.isRemoteServer (cellOf_withCell ..)
  cases hnow.symm.trans (hflag.trans hthen)

end Sample

end MetalBond.RemoteRole
