import MetalBond.PeerEntries

namespace MetalBond.HeardRoutes

open Async Task Collections HashMap Peer PeerEntries
open Losses (dropReceiver)
open Ownership (Holdings holdings)
open SubscriptionRecords (Actor)

inductive Job
  | connect
  | round (r : Round)
  | other

def Job.heard : Job → Option GeneratedMessage
  | .round r => heardIn r
  | .connect | .other => none

/-- The calls of an application that leaves its subscriptions and the peers as they are. -/
inductive SteadyCall {ι : Type} (peers : ι → Peer) : Code (Except Error Unit) → Prop
  | announceRoute (vni : Vni) (dest : Destination) (nh : NextHop) :
    SteadyCall peers (announceRoute vni dest nh)
  | withdrawRoute (vni : Vni) (dest : Destination) (nh : NextHop) :
    SteadyCall peers (withdrawRoute vni dest nh)
  | addPeer (parse : String → Option SocketAddr) (serverAddr : String) :
    SteadyCall peers (addPeer parse serverAddr)
  | removePeer (parse : String → Option SocketAddr) (ord : HashOrder) (addrStr : String)
    (hother : ∀ i, parse addrStr ≠ some (peers i).remoteAddr) :
    SteadyCall peers (removePeer parse ord addrStr)

/-- What the tasks do from one wait to the next, in any order, while no timer overflows. -/
inductive Work {ι κ : Type} (peers : ι → Peer) :
    Actor ι κ → Job → Option InternalUpdate → Code Unit → Prop
  | connect (i : ι) (ord : HashOrder) : Work peers (.connection i) .connect none (do
      insertPeer (peers i)
      let _ ← (peers i).startPeer ord
      return ())
  | round (i : ι) (ord : HashOrder) (r : Round) (t : Timers)
    (hreset : (t.polled r.polled).reset (peers i).config r.now ≠ none) :
    Work peers (.connection i) (.round r) none (do
      let _ ← (peers i).selectRound ord r t
      return ())
  | disconnect (i : ι) : Work peers (.connection i) .other none (do
      modify (dropReceiver (peers i))
      erasePeer (peers i).remoteAddr)
  | call (k : κ) {t : Code (Except Error Unit)} (h : SteadyCall peers t) :
    Work peers (.caller k) .other none (do
      let _ ← t
      return ())
  | distribute (ord : HashOrder) (u : InternalUpdate) : Work peers .distributor .other (some u) (do
      let _ ← distribute ord u
      return ())

/-- What a job makes of the entry of its peer. -/
inductive Does (p : Peer) : Job → Entry → Entry → Prop
  | connect (e : Entry) (st : ConnectionState) : Does p .connect e (e.enter st)
  | round {r : Round} {e e' : Entry} (h : Rounds p (heardIn r) e e') : Does p (.round r) e e'
  | other (e : Entry) : Does p .other e e

section Does

variable {p : Peer} {e e' : Entry}

theorem Does.agree {j : Job} (hagree : e.Agree) (h : Does p j e e') : e'.Agree := by
  cases h with
  | connect st => exact hagree.enter _
  | round h => exact h.agree
  | other => exact hagree

theorem makes_ret {α : Type} {Post : Entry → Prop} {t : Code α}
    (h : Makes p (fun e' _ ↦ Post e') t e) :
    Makes p (fun e' _ ↦ Post e') (do let _ ← t; return () : Code Unit) e :=
  h.bind fun _ _ hpost ↦ .ret hpost

variable {ι κ : Type} {peers : ι → Peer}

theorem same_steadyCall {i : ι} {t : Code (Except Error Unit)} (h : SteadyCall peers t) :
    Confined (Same (entry (peers i))) t := by
  cases h with
  | announceRoute vni dest nh => exact same_announceRoute vni dest nh
  | withdrawRoute vni dest nh => exact same_withdrawRoute vni dest nh
  | addPeer parse serverAddr => exact same_addPeer parse serverAddr
  | removePeer parse ord addrStr hother => exact same_removePeer parse ord (hother i)

/-- The jobs of a connection do with its entry what they should, and nobody else touches it. -/
theorem serves_work (hids : Function.Injective fun i ↦ (peers i).id)
    (haddrs : Function.Injective fun i ↦ (peers i).remoteAddr) (i : ι) {first : Entry}
    (hfirst : first.Agree) :
    Journal.Serves (entry (peers i)) (Does (peers i)) first (.connection i)
      (Work (κ := κ) peers) where
  own hleads hwork := by
    have hagree := hleads.invariant hfirst fun _ _ _ hagree hdoes ↦ hdoes.agree hagree
    cases hwork with
    | connect _ ord =>
      refine (follows_same same_insertPeer).andThen fun _ ↦ makes_ret ?_
      refine (follows_startPeer ord hagree).mono fun e' _ h ↦ ?_
      obtain ⟨st, rfl⟩ := h
      exact .connect _ st
    | round _ ord r t hreset =>
      exact makes_ret ((follows_selectRound ord hagree r t hreset).mono fun _ _ h ↦ .round h)
    | disconnect =>
      exact (follows_same same_disconnect).mono fun _ _ h ↦ h ▸ .other _
  others hne hwork := by
    cases hwork with
    | connect k ord =>
      have hk : k ≠ i := fun h ↦ hne (by rw [h])
      have hacts := acts_same (hids.ne hk.symm) (haddrs.ne hk)
      exact .bind same_insertPeer fun _ ↦ .bind (hacts.composes.startPeer ord) fun _ ↦ .ret ()
    | round k ord r t _ =>
      have hk : k ≠ i := fun h ↦ hne (by rw [h])
      have hacts := acts_same (hids.ne hk.symm) (haddrs.ne hk)
      exact .bind (hacts.composes.selectRound ord (.modify same_takeOutgoing) r t) fun _ ↦ .ret ()
    | disconnect k => exact same_disconnect
    | call k h => exact .bind (same_steadyCall h) fun _ ↦ .ret ()
    | distribute ord u => exact .bind (same_distribute ord u) fun _ ↦ .ret ()

end Does

def nothing (listens : Finset Vni) : Holdings := ⟨∅, ∅, listens⟩

/-- What is there of a peer after these jobs of its connection. -/
def heard (p : Peer) (listens : Finset Vni) (jobs : List Job) : Holdings :=
  (jobs.filterMap Job.heard).foldl (hear p) (nothing listens)

section Jobs

variable {p : Peer} {listens : Finset Vni} {jobs : List Job} {e e' : Entry}

theorem listens_hear (h : Holdings) (msg : GeneratedMessage) :
    (hear p h msg).listens = h.listens := by
  cases msg <;> rfl

theorem listens_heard (p : Peer) (listens : Finset Vni) (jobs : List Job) :
    (heard p listens jobs).listens = listens := by
  refine List.foldlRecOn (motive := fun h : Holdings ↦ h.listens = listens) _ (hear p) rfl ?_
  intro h hlistens msg _
  rw [listens_hear, hlistens]

def Job.hear (p : Peer) (h : Holdings) (j : Job) : Holdings :=
  j.heard.elim h (PeerEntries.hear p h)

theorem foldl_heard (h : Holdings) (jobs : List Job) :
    (jobs.filterMap Job.heard).foldl (hear p) h = jobs.foldl (Job.hear p) h := by
  induction jobs generalizing h with
  | nil => rfl
  | cons j rest ih =>
    rw [List.foldl_cons, ← ih, Job.hear]
    cases hj : j.heard <;> simp [hj]

theorem heard_append (l : List Job) :
    heard p listens (jobs ++ l) = l.foldl (Job.hear p) (heard p listens jobs) := by
  rw [heard, heard, foldl_heard, foldl_heard, List.foldl_append]

theorem Does.up {j : Job} (h : Does p j e e') (hj : j ≠ .connect) (hopen : e'.state ≠ .closed) :
    e.state ≠ .closed := by
  cases h with
  | connect _ st => exact absurd rfl hj
  | other => exact hopen
  | round h =>
    cases h with
    | closes _ _ => exact absurd (Entry.state_enter ..) hopen
    | goesOn h =>
      rcases h.state with hsame | ⟨-, hold, -⟩
      · rwa [← hsame]
      · exact hold

/-- A job that leaves the connection open has only handled its message. -/
theorem Does.holdings_of_open {j : Job} (h : Does p j e e')
    (hj : j = .connect → e.state ≠ .established) (hopen : e'.state ≠ .closed) :
    e'.holdings = j.hear p e.holdings := by
  cases h with
  | connect _ st =>
    rw [e.enter_of_ne (hj rfl)]
    rfl
  | other => rfl
  | round h =>
    cases h with
    | closes _ _ => exact absurd (Entry.state_enter ..) hopen
    | goesOn h => exact h.holdings

/-- A job that closes the connection forgets everything, its own message included, if the
connection was established. -/
theorem Does.holdings_of_closed {j : Job} (h : Does p j e e')
    (hj : j = .connect → e.state ≠ .established) (hup : e.state ≠ .closed)
    (hclosed : e'.state = .closed) :
    e'.holdings = if e.state = .established then nothing e.holdings.listens
      else j.hear p e.holdings := by
  cases h with
  | connect _ st =>
    rw [if_neg (hj rfl), e.enter_of_ne (hj rfl)]
    rfl
  | other => exact absurd hclosed hup
  | round h =>
    cases h with
    | goesOn h =>
      rcases h.state with hsame | ⟨-, -, hnot⟩
      · exact absurd (hsame.symm.trans hclosed) hup
      · exact absurd hclosed hnot
    | @closes e₁ h hstate =>
      by_cases hest : e.state = .established
      · rw [if_pos hest, Entry.enter, if_pos ⟨hstate.trans hest, by decide⟩, h.holdings]
        refine Holdings.ext rfl rfl ?_
        cases heardIn _ with
        | none => rfl
        | some msg => exact listens_hear ..
      · rw [if_neg hest, Entry.enter_of_ne _ fun h ↦ hest (hstate.symm.trans h)]
        exact h.holdings

theorem Does.holdings_of_stays {j : Job} (h : Does p j e e') (hj : j ≠ .connect)
    (hclosed : e.state = .closed) :
    e'.state = .closed ∧ e'.holdings = j.hear p e.holdings := by
  cases h with
  | connect _ st => exact absurd rfl hj
  | other => exact ⟨hclosed, rfl⟩
  | round h =>
    cases h with
    | goesOn h =>
      refine ⟨?_, h.holdings⟩
      rcases h.state with hsame | ⟨-, hold, -⟩
      · exact hsame.trans hclosed
      · exact absurd hclosed hold
    | @closes e₁ h hstate =>
      have hne : e₁.state ≠ .established := by simp [hstate, hclosed]
      rw [Entry.enter_of_ne _ hne]
      exact ⟨rfl, h.holdings⟩

variable {first last : Entry}

/-- Once the connection is closed, what comes next is handled on top of what closing has left. -/
theorem holdings_after_close (h : Leads (Does p) first jobs last) (hclosed : first.state = .closed)
    (hno : .connect ∉ jobs) :
    last.state = .closed ∧ last.holdings = jobs.foldl (Job.hear p) first.holdings := by
  induction h with
  | nil => exact ⟨hclosed, rfl⟩
  | @snoc l j e e' _ hdoes ih =>
    rw [List.mem_append, not_or, List.mem_singleton] at hno
    obtain ⟨hbefore, hholdings⟩ := ih hno.1
    obtain ⟨hstate, hhandled⟩ := hdoes.holdings_of_stays (Ne.symm hno.2) hbefore
    refine ⟨hstate, ?_⟩
    rw [List.foldl_append, ← hholdings]
    exact hhandled

def Once (jobs : List Job) : Prop := .connect ∉ jobs.tail

theorem Once.init {j : Job} (h : Once (jobs ++ [j])) : Once jobs := by
  cases jobs with
  | nil => exact List.not_mem_nil
  | cons a l => exact fun hmem ↦ h (List.mem_append_left _ hmem)

theorem Once.ne_connect {j : Job} (h : Once (jobs ++ [j])) (hne : jobs ≠ []) : j ≠ .connect := by
  cases jobs with
  | nil => exact absurd rfl hne
  | cons a l => exact fun hj ↦ h (List.mem_append_right _ (by simp [hj]))

theorem Once.ne_established {j : Job} (h : Once (jobs ++ [j]))
    (hleads : Leads (Does p) first jobs last) (hconnecting : first.state = .connecting)
    (hj : j = .connect) : last.state ≠ .established := by
  by_cases hjobs : jobs = []
  · subst hjobs
    rw [hleads.eq_of_nil, hconnecting]
    decide
  · exact absurd hj (h.ne_connect hjobs)

/-- As long as the connection is not closed, all that the peer has said counts. -/
theorem holdings_of_open (h : Leads (Does p) first jobs last)
    (hnothing : first.holdings = nothing listens) (hconnecting : first.state = .connecting)
    (honce : Once jobs) (hopen : last.state ≠ .closed) :
    last.holdings = heard p listens jobs := by
  induction h with
  | nil => exact hnothing
  | @snoc l j e e' hleads hdoes ih =>
    have hbefore : e.state ≠ .closed := by
      by_cases hl : l = []
      · subst hl
        rw [hleads.eq_of_nil, hconnecting]
        decide
      · exact hdoes.up (honce.ne_connect hl) hopen
    rw [heard_append, hdoes.holdings_of_open (honce.ne_established hleads hconnecting) hopen,
      ih honce.init hbefore]
    rfl

theorem holdings_of_closed {before kept : List Job} {j : Job}
    (hbefore : Leads (Does p) first before e) (hdoes : Does p j e e')
    (hafter : Leads (Does p) e' kept last) (hnothing : first.holdings = nothing listens)
    (hconnecting : first.state = .connecting) (honce : Once (before ++ [j] ++ kept))
    (hup : e.state ≠ .closed) (hclosed : e'.state = .closed) :
    last.holdings =
      heard p listens (if e.state = .established then kept else before ++ [j] ++ kept) := by
  have hfirst : Once (before ++ [j]) := fun hmem ↦ honce (by
    rw [List.tail_append_of_ne_nil (by simp)]
    exact List.mem_append_left _ hmem)
  have hno : .connect ∉ kept := fun hmem ↦ honce (by
    rw [List.tail_append_of_ne_nil (by simp)]
    exact List.mem_append_right _ hmem)
  have hopen := holdings_of_open hbefore hnothing hconnecting hfirst.init hup
  have hleft :=
    hdoes.holdings_of_closed (hfirst.ne_established hbefore hconnecting) hup hclosed
  rw [(holdings_after_close hafter hclosed hno).2, hleft, hopen]
  split
  · rw [listens_heard, heard, foldl_heard]
  · rw [heard_append, heard_append]
    rfl

end Jobs

section Runs

variable {ι κ : Type} [DecidableEq ι] [DecidableEq κ] {peers : ι → Peer}

abbrev Tasks (ι κ : Type) := Journal (Actor ι κ) Job Lock World InternalUpdate Unit

structure Begins (peers : ι → Peer) (x : Tasks ι κ) : Prop where
  idle : ∀ a, x.pool.Idle a
  entries : x.entries = []
  cells : ∀ i, (peers i).cellOf x.pool.shared = .new
  routes : ∀ i r, some (peers i).remoteAddr ∉ x.pool.shared.world.mb.routeTable.sources r
  subscribers : ∀ i vni, (peers i).remoteAddr ∉ valueAt x.pool.shared.world.mb.subscribers vni

omit [DecidableEq ι] [DecidableEq κ] in
theorem Begins.entry {x : Tasks ι κ} (h : Begins peers x) (i : ι) :
    entry (peers i) x.pool.shared.world =
      ⟨nothing x.pool.shared.world.mb.mySubscriptions, ∅, .connecting⟩ := by
  have hcell : x.pool.shared.world.cell (peers i).id = .new := h.cells i
  refine Entry.ext (Holdings.ext ?_ ?_ rfl) ?_ ?_
  · exact Set.eq_empty_of_forall_notMem fun r ↦ h.routes i r
  · exact Set.eq_empty_of_forall_notMem fun vni hvni ↦ h.subscribers i vni (mem_vnis_entry.mp hvni)
  · simp [PeerEntries.entry, hcell, PeerCell.new]
  · simp [PeerEntries.entry, hcell, PeerCell.new]

/-- On the way from `m` to `z`, one job of the connection has closed it. -/
structure Closes (peers : ι → Peer) (i : ι) (m z : Tasks ι κ) : Prop where
  run : Run (Journal.Step (Work peers)) m z
  before : m.pool.Idle (.connection i)
  after : z.pool.Idle (.connection i)
  job : ∃ j, z.jobs (.connection i) = m.jobs (.connection i) ++ [j]
  up : ((peers i).cellOf m.pool.shared).state ≠ .closed
  closed : ((peers i).cellOf z.pool.shared).state = .closed

section Streams

variable {x y : Tasks ι κ} {i : ι}

omit [DecidableEq ι] [DecidableEq κ] in
theorem agree_of_begins (hbegins : Begins peers x) :
    (entry (peers i) x.pool.shared.world).Agree := by
  rw [hbegins.entry i]
  exact fun vni ↦ by simp [nothing]

theorem jobs_of_begins (hbegins : Begins peers x) : x.jobs (.connection i) = [] := by
  rw [Journal.jobs, hbegins.entries]
  rfl

theorem leads_between (hids : Function.Injective fun i ↦ (peers i).id)
    (haddrs : Function.Injective fun i ↦ (peers i).remoteAddr) (hbegins : Begins peers x)
    {m z : Tasks ι κ} (hm : Run (Journal.Step (Work peers)) x m)
    (hidle : m.pool.Idle (.connection i)) (hz : Run (Journal.Step (Work peers)) m z)
    (hend : z.pool.Idle (.connection i)) :
    ∃ l, z.jobs (.connection i) = m.jobs (.connection i) ++ l ∧
      Leads (Does (peers i)) (entry (peers i) m.pool.shared.world) l
        (entry (peers i) z.pool.shared.world) := by
  have hagree := agree_of_begins (i := i) hbegins
  have hserving := (serves_work hids haddrs i hagree).along
    (Journal.serving_idle hbegins.idle rfl) hm
  obtain ⟨l, -, hleads⟩ := hserving.leads hidle
  have hkept := hleads.invariant hagree fun _ _ _ h hdoes ↦ hdoes.agree h
  exact ((serves_work hids haddrs i hkept).along (hserving.anew hidle) hz).leads hend

theorem leads_first (hids : Function.Injective fun i ↦ (peers i).id)
    (haddrs : Function.Injective fun i ↦ (peers i).remoteAddr) (hbegins : Begins peers x)
    (hrun : Run (Journal.Step (Work peers)) x y) (hidle : y.pool.Idle (.connection i)) :
    Leads (Does (peers i)) (entry (peers i) x.pool.shared.world) (y.jobs (.connection i))
      (entry (peers i) y.pool.shared.world) := by
  obtain ⟨l, hjobs, hleads⟩ :=
    leads_between hids haddrs hbegins .refl (hbegins.idle (.connection i)) hrun hidle
  rw [jobs_of_begins hbegins] at hjobs
  rw [hjobs]
  exact hleads

theorem exists_closes (hids : Function.Injective fun i ↦ (peers i).id)
    (haddrs : Function.Injective fun i ↦ (peers i).remoteAddr) (hbegins : Begins peers x)
    {l : List Job} (hrun : Run (Journal.Step (Work peers)) x y)
    (hidle : y.pool.Idle (.connection i)) (hl : y.jobs (.connection i) = l)
    (hclosed : ((peers i).cellOf y.pool.shared).state = .closed) :
    ∃ m z, Run (Journal.Step (Work peers)) x m ∧ Closes peers i m z ∧
      Run (Journal.Step (Work peers)) z y := by
  induction l using List.reverseRecOn generalizing y with
  | nil =>
    have hleads := leads_first hids haddrs hbegins hrun hidle
    rw [hl] at hleads
    have hfirst := hleads.eq_of_nil.trans (hbegins.entry i)
    have hstate : ((peers i).cellOf y.pool.shared).state = .connecting :=
      congrArg Entry.state hfirst
    exact ConnectionState.noConfusion (hclosed.symm.trans hstate)
  | append_singleton l j ih =>
    obtain ⟨m, hbefore, hafter, hm, hjobs⟩ :=
      Journal.exists_before hrun (jobs_of_begins hbegins) hl
    by_cases hup : ((peers i).cellOf m.pool.shared).state = .closed
    · obtain ⟨m', z, hm', hcloses, hz⟩ := ih hbefore hm hjobs hup
      exact ⟨m', z, hm', hcloses, hz.trans hafter⟩
    · exact ⟨m, y, hbefore, ⟨hafter, hm, hidle, ⟨j, by rw [hl, hjobs]⟩, hup, hclosed⟩, .refl⟩

end Streams

end Runs

open SubscriptionRecords (acceptors acceptor)
open KeepaliveTimeout (greeting confirmation greeted)

noncomputable def connectedNode : Node :=
  (exec [] (do
    insertPeer acceptor
    let _ ← acceptor.startPeer .toList
    return () : Code Unit) (Sample.node true)).shared

theorem exec_connect : exec [] (do
    insertPeer acceptor
    let _ ← acceptor.startPeer .toList
    return () : Code Unit) (Sample.node true) = .done () [] connectedNode := rfl

noncomputable def acceptedNode : Node :=
  acceptor.withCell connectedNode { greeted with state := .established }

noncomputable def learnedNode : Node := acceptor.updated (Sample.update .add) acceptedNode

noncomputable def partedNode : Node :=
  acceptor.withCell (acceptor.parted .toList learnedNode)
    { acceptor.cellOf (acceptor.parted .toList learnedNode) with shutdownSignal := true }

def announcement : Round := ⟨false, .frame (.message (.update (Sample.update .add))), 3, 3⟩

def ending : Round := ⟨false, .frame .eof, 4, 4⟩

structure Rests (l : List Job) (s : Node) (x : Tasks Bool Unit) : Prop where
  held : ∀ a, x.pool.held a = []
  idle : x.pool.Idle (.connection true)
  jobs : x.jobs (.connection true) = l
  shared : x.pool.shared = s

theorem Rests.start {x : Tasks Bool Unit} {l : List Job} {s s' : Node} {j : Job} {t : Code Unit}
    (h : Rests l s x) (hstart : Work (κ := Unit) acceptors (.connection true) j none t)
    (hexec : exec [] t s = .done () [] s') :
    ∃ y, Run (Journal.Step (Work acceptors)) x y ∧ Rests (l ++ [j]) s' y := by
  refine ⟨_, Journal.run_whole h.held h.idle hstart (h.shared ▸ hexec), ?_, ⟨(), ?_⟩, ?_, rfl⟩
  · exact Pool.unguarded_set h.held _ _ _
  · rw [Pool.code_set, Function.update_self]
  · rw [Journal.jobs_own]
    exact congrArg (· ++ [j]) h.jobs

theorem Rests.round {x : Tasks Bool Unit} {l : List Job} {s s' : Node} {r : Round}
    {t t' : Timers} (h : Rests l s x)
    (hreset : (t.polled r.polled).reset acceptor.config r.now ≠ none)
    (hexec : exec [] (acceptor.selectRound .toList r t) s = .done (.again t') [] s') :
    ∃ y, Run (Journal.Step (Work acceptors)) x y ∧ Rests (l ++ [.round r]) s' y := by
  refine h.start (.round true .toList r t hreset) ?_
  rw [exec_bind, show exec [] ((acceptors true).selectRound .toList r t) s = _ from hexec]
  rfl

def running (timeout : ℕ) : Timers := ⟨some (.fromSecs 5), some timeout⟩

theorem exec_confirmation : exec [] (acceptor.selectRound .toList confirmation .off)
    (acceptor.withCell connectedNode greeted) =
      .done (.again (running 12500000002)) [] acceptedNode := by
  have hdone := exec_processKeepalive .toList acceptor (acceptor.withCell connectedNode greeted)
  have hon : acceptor.onKeepalive .toList (acceptor.withCell connectedNode greeted) greeted =
      (.ok (), { greeted with state := .established }) := by
    have hsynced := @Peer.synced_empty .toList (acceptor.withCell connectedNode greeted) rfl rfl
      { greeted with state := .established }
    rw [← hsynced]
    rfl
  rw [cellOf_withCell, withCell_withCell, hon] at hdone
  exact Connection.exec_selectRound_started rfl rfl hdone
    (congrArg PeerCell.state (cellOf_withCell ..)) rfl rfl

theorem exec_announcement : exec [] (acceptor.selectRound .toList announcement
    (running 12500000002)) acceptedNode =
      .done (.again (running 12500000003)) [] learnedNode := rfl

theorem cellOf_learnedNode :
    acceptor.cellOf learnedNode = { greeted with state := .established } := rfl

theorem rests_parted : ∃ x m z : Tasks Bool Unit, Begins acceptors x ∧
    x.pool.shared = Sample.node true ∧ Run (Journal.Step (Work acceptors)) x m ∧
    Rests [.connect, .round greeting, .round confirmation, .round announcement] learnedNode m ∧
    Run (Journal.Step (Work acceptors)) m z ∧
    Rests [.connect, .round greeting, .round confirmation, .round announcement, .round ending]
      partedNode z := by
  let x : Tasks Bool Unit := ⟨⟨fun _ ↦ ⟨[], .ret ()⟩, Sample.node true⟩, []⟩
  have hbegins : Begins acceptors x :=
    ⟨fun _ ↦ ⟨(), rfl⟩, rfl, fun _ ↦ rfl, fun _ _ ↦ nofun, fun _ _ ↦ nofun⟩
  have hx : Rests [] (Sample.node true) x := ⟨fun _ ↦ rfl, ⟨(), rfl⟩, rfl, rfl⟩
  have hunblocked : ¬ Blocks (acceptor.cellOf learnedNode) := by
    rw [cellOf_learnedNode]
    exact fun h ↦ h.2 rfl
  obtain ⟨x₁, hconnect, hx₁⟩ := hx.start (.connect true .toList) exec_connect
  obtain ⟨x₂, hgreet, hx₂⟩ := hx₁.round (r := greeting) (t := .off) nofun
    (Connection.exec_selectRound_kept rfl rfl
      (exec_processHello .toList acceptor connectedNode ⟨5, false⟩) (by decide))
  obtain ⟨x₃, haccept, hx₃⟩ := hx₂.round (r := confirmation) (t := .off) nofun exec_confirmation
  obtain ⟨m, hlearn, hm⟩ := hx₃.round (t := running 12500000002)
    (Option.ne_none_iff_exists'.mpr ⟨_, rfl⟩) exec_announcement
  obtain ⟨z, hend, hz⟩ := hm.round (r := ending) (t := running 12500000003)
    (Option.ne_none_iff_exists'.mpr ⟨_, rfl⟩)
    (Connection.exec_selectRound_ended rfl _ hunblocked)
  exact ⟨x, m, z, hbegins, rfl, hconnect.trans (hgreet.trans (haccept.trans hlearn)), hm, hend, hz⟩

end MetalBond.HeardRoutes
