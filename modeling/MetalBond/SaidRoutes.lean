import MetalBond.Convergence
import MetalBond.KernelMirror
import MetalBond.PeerEntries

namespace MetalBond.SaidRoutes

open Async Task Collections HashMap Peer PeerEntries
open Ownership (Holdings)

def learned (k : PeerKey) (w : World) : Holdings where
  routes := {r | k ∈ w.mb.routeTable.sources r}
  vnis := ∅
  listens := w.mb.mySubscriptions

def said (p : Peer) (h : Holdings) (jobs : List (Option Pb.Update)) : Holdings :=
  jobs.foldl (fun h msg ↦ msg.elim h fun msg ↦ hear p h (.update msg)) h

section Sources

variable {p : Peer} {k : PeerKey}

theorem mem_sources_applyUpdate (w : World) (action : UpdateAction) (vni : Vni)
    (dest : Destination) (nh : NextHop) (hk : k ≠ some p.remoteAddr) (r : Route) :
    k ∈ (applyUpdate action vni dest nh (some p.remoteAddr) w).2.mb.routeTable.sources r ↔
      k ∈ w.mb.routeTable.sources r := by
  rw [sources_applyUpdate]
  split
  · next hr =>
    subst hr
    cases action <;> simp [hk]
  · exact .rfl

theorem learned_applyUpdate (w : World) (action : UpdateAction) (vni : Vni) (dest : Destination)
    (nh : NextHop) : learned (some p.remoteAddr)
        (applyUpdate action vni dest nh (some p.remoteAddr) w).2 =
      { learned (some p.remoteAddr) w with routes := match action with
          | .add => insert (vni, dest, nh) (learned (some p.remoteAddr) w).routes
          | .remove => (learned (some p.remoteAddr) w).routes \ {(vni, dest, nh)} } := by
  obtain ⟨t, ht⟩ := @routesOnly_applyUpdate vni dest nh (some p.remoteAddr) w action
  have hroutes := congrArg (fun e : Entry ↦ e.holdings.routes)
    (@entry_applyUpdate p w action vni dest nh)
  refine Holdings.ext hroutes rfl ?_
  rw [ht]
  rfl

/-- Another peer says nothing about the routes of this one. -/
theorem same_processUpdate (hk : k ≠ some p.remoteAddr) (msg : Pb.Update) :
    Confined (Same (learned k)) (p.processUpdate msg) := by
  refine p.confined_processUpdate msg fun action vni dest nh _ ↦ ⟨fun _ _ ↦ rfl, fun s ↦ ?_⟩
  obtain ⟨t, ht⟩ := @routesOnly_applyUpdate vni dest nh (some p.remoteAddr) s.world action
  refine Holdings.ext (Set.ext (mem_sources_applyUpdate s.world action vni dest nh hk)) rfl ?_
  rw [ht]
  rfl

theorem follows_learned (h : Holdings) (msg : Pb.Update) :
    Follows (owner (learned (some p.remoteAddr))) (fun h' _ ↦ h' = hear p h (.update msg))
      (p.processUpdate msg) h := by
  refine follows_processUpdate_within (fun routes ↦ { h with routes := routes }) h msg ?_ ?_
  · exact fun w hw ↦ congrArg Holdings.listens hw
  · intro w action vni dest nh hw
    have hw' : learned (some p.remoteAddr) w = h := hw
    have hafter := @learned_applyUpdate p w action vni dest nh
    rw [hw'] at hafter
    exact hafter

theorem learned_of_new {w : World} (h : w.mb.routeTable = .new) (k : PeerKey) :
    learned k w = ⟨∅, ∅, w.mb.mySubscriptions⟩ := by
  refine Holdings.ext (Set.eq_empty_of_forall_notMem fun r hr ↦ ?_) rfl rfl
  have hmem : k ∈ w.mb.routeTable.sources r := hr
  rw [h, RouteTable.sources_new] at hmem
  exact Finset.notMem_empty _ hmem

def KeepsTable (s s' : Node) : Prop :=
  s'.world.mb.routeTable = s.world.mb.routeTable ∧
    s'.world.mb.mySubscriptions = s.world.mb.mySubscriptions

instance : Std.Refl KeepsTable := ⟨fun _ ↦ ⟨rfl, rfl⟩⟩

theorem KeepsTable.same {s s' : Node} (h : KeepsTable s s') (k : PeerKey) :
    Same (learned k) s s' := by
  rw [Same, learned, learned, h.1, h.2]

end Sources

/-- A node, and which connection has handled what. -/
abbrev Recorded (A : Type) :=
  Journal A (Option Pb.Update) Lock World InternalUpdate (Except Error Unit)

section Tasks

variable {ι A : Type} {peers : ι → Peer} {task : ι → A}
variable {Starts : A → Option Pb.Update → Option InternalUpdate → Code (Except Error Unit) → Prop}

/-- Each of these tasks handles the `UPDATE`s of its own peer. No other task touches the table
or the subscriptions. -/
structure Speak (peers : ι → Peer) (task : ι → A)
    (Starts : A → Option Pb.Update → Option InternalUpdate → Code (Except Error Unit) → Prop) :
    Prop where
  own : ∀ {i j o t}, Starts (task i) j o t →
    ∃ msg, j = some msg ∧ t = (peers i).processUpdate msg
  others : ∀ {a j o t}, (∀ i, a ≠ task i) → Starts a j o t → Confined KeepsTable t

theorem Speak.same (h : Speak peers task Starts) {k : PeerKey} {a : A} {j : Option Pb.Update}
    {o : Option InternalUpdate} {t : Code (Except Error Unit)}
    (hk : ∀ i, a = task i → k ≠ some (peers i).remoteAddr) (hstart : Starts a j o t) :
    Confined (Same (learned k)) t := by
  by_cases ha : ∃ i, a = task i
  · obtain ⟨i, rfl⟩ := ha
    obtain ⟨msg, rfl, rfl⟩ := h.own hstart
    exact same_processUpdate (hk i rfl) msg
  · exact (h.others (not_exists.mp ha) hstart).mono fun _ _ hkept ↦ hkept.same k

theorem Speak.serves (h : Speak peers task Starts)
    (haddrs : Function.Injective fun i ↦ (peers i).remoteAddr) (i : ι) (first : Holdings) :
    Journal.Serves (learned (some (peers i).remoteAddr))
      (fun msg h h' ↦ h' = msg.elim h fun msg ↦ hear (peers i) h (.update msg)) first (task i)
      Starts where
  own {_ v _ _ _} _ hstart := by
    obtain ⟨msg, rfl, rfl⟩ := h.own hstart
    exact follows_learned v msg
  others {a _ _ _} ha hstart := by
    refine h.same (fun i' hi' ↦ ?_) hstart
    have hne : i ≠ i' := fun hi ↦ ha (by rw [hi', hi])
    exact fun heq ↦ haddrs.ne hne (Option.some.inj heq)

variable [DecidableEq A] {x y : Recorded A}

theorem Speak.learned_eq (h : Speak peers task Starts) (hidle : ∀ a, x.pool.Idle a)
    (hrun : Run (Journal.Step Starts) x y) {k : PeerKey}
    (hk : ∀ i, k ≠ some (peers i).remoteAddr) :
    learned k y.pool.shared.world = learned k x.pool.shared.world := by
  let Kept (z : Recorded A) : Prop :=
    learned k z.pool.shared.world = learned k x.pool.shared.world ∧
      ∀ a, Confined (Same (learned k)) (z.pool.code a)
  have hinit : Kept x := by
    refine ⟨rfl, fun a ↦ ?_⟩
    obtain ⟨r, hr⟩ := hidle a
    rw [hr]
    exact .ret r
  have hkept : Kept y := by
    refine hrun.invariant hinit fun z z' hz hstep ↦ ?_
    obtain ⟨hsame, hcode⟩ := hstep.pool.confined hz.2
      (fun a _ _ hstart ↦ h.same (fun i _ ↦ hk i) hstart.choose_spec) fun _ _ ↦ rfl
    exact ⟨Eq.trans hsame hz.1, hcode⟩
  exact hkept.1

/-- The table has exactly the routes that follow from what each of the peers has said. -/
theorem Speak.has_iff (h : Speak peers task Starts)
    (haddrs : Function.Injective fun i ↦ (peers i).remoteAddr)
    (hfrom : ∀ r, ∀ k ∈ x.pool.shared.world.mb.routeTable.sources r,
      ∃ i, k = some (peers i).remoteAddr)
    (hidle : ∀ a, x.pool.Idle a) (hentries : x.entries = [])
    (hrun : Run (Journal.Step Starts) x y) (hend : ∀ i, y.pool.Idle (task i)) (r : Route) :
    y.pool.shared.world.mb.routeTable.Has r ↔ ∃ i,
      r ∈ (said (peers i) (learned (some (peers i).remoteAddr) x.pool.shared.world)
        (y.jobs (task i))).routes := by
  have hsaid (i : ι) : said (peers i) (learned (some (peers i).remoteAddr) x.pool.shared.world)
      (y.jobs (task i)) = learned (some (peers i).remoteAddr) y.pool.shared.world :=
    (((h.serves haddrs i _).run hidle hentries rfl hrun (hend i)).eq_foldl fun _ _ _ ↦ id).symm
  simp only [hsaid]
  constructor
  · intro hhas
    obtain ⟨k, hmem⟩ := Finset.nonempty_iff_ne_empty.mpr hhas
    by_cases hk : ∃ i, k = some (peers i).remoteAddr
    · obtain ⟨i, rfl⟩ := hk
      exact ⟨i, hmem⟩
    · have hother := not_exists.mp hk
      have hroutes := congrArg Holdings.routes (h.learned_eq hidle hrun hother)
      have hold : r ∈ (learned k x.pool.shared.world).routes := hroutes ▸ hmem
      exact absurd (hfrom r k hold) hk
  · intro hex
    obtain ⟨i, hmem⟩ := hex
    exact RouteTable.has_of_mem hmem

end Tasks

theorem keepsTable_announceRoute (vni : Vni) (dest : Destination) (nh : NextHop) :
    Confined KeepsTable (announceRoute vni dest nh) :=
  confined_announceRoute (fun _ ↦ ⟨rfl, rfl⟩) fun _ ↦ ⟨rfl, rfl⟩

theorem keepsTable_withdrawRoute (vni : Vni) (dest : Destination) (nh : NextHop) :
    Confined KeepsTable (withdrawRoute vni dest nh) := by
  refine confined_withdrawRoute (fun s ↦ ?_) fun _ ↦ ⟨rfl, rfl⟩
  unfold removeAnnouncement
  split <;> exact ⟨rfl, rfl⟩

theorem keepsTable_distribute (ord : HashOrder) (u : InternalUpdate) :
    Confined KeepsTable (distribute ord u) :=
  confined_distribute (R := KeepsTable) (fun _ ↦ ⟨rfl, rfl⟩) (fun _ _ _ ↦ ⟨rfl, rfl⟩) ord

theorem keepsTable_processSubscribe (p : Peer) (ord : HashOrder) (sub : Pb.Subscription) :
    Confined KeepsTable (p.processSubscribe ord sub) := by
  refine .bind (.writing fun _ ↦ ⟨rfl, rfl⟩) fun wasInserted ↦ ?_
  refine .bind (.writing fun _ ↦ ⟨rfl, rfl⟩) fun _ ↦ ?_
  cases wasInserted with
  | true =>
    refine .bind (.reading ..) fun routes ↦ ?_
    exact confined_sendExisting (R := KeepsTable) (fun _ _ ↦ ⟨rfl, rfl⟩) (fun _ ↦ ⟨rfl, rfl⟩) ..
  | false => exact .ret _

theorem keepsTable_writeOutgoing (p : Peer) : Confined KeepsTable p.writeOutgoing := by
  refine .bind (.modify fun s ↦ ?_) fun _ ↦ .ret _
  have hmb := (p.received_takeOutgoing s).2.mb
  exact ⟨congrArg MetalBondState.routeTable hmb, congrArg MetalBondState.mySubscriptions hmb⟩

section Client

open TwoTables (Careful careful_of_disjoint)

variable {ι κ : Type}

/-- The connections, each with the `UPDATE`s of its peer, the calls of the application, and the
distributor. -/
inductive ClientWork (peers : ι → Peer) : Option (ι ⊕ κ) → Option Pb.Update →
    Option InternalUpdate → Code (Except Error Unit) → Prop
  | processUpdate (i : ι) (msg : Pb.Update) :
    ClientWork peers (some (.inl i)) (some msg) none ((peers i).processUpdate msg)
  | announceRoute (k : κ) (vni : Vni) (dest : Destination) (nh : NextHop) :
    ClientWork peers (some (.inr k)) none none (announceRoute vni dest nh)
  | withdrawRoute (k : κ) (vni : Vni) (dest : Destination) (nh : NextHop) :
    ClientWork peers (some (.inr k)) none none (withdrawRoute vni dest nh)
  | distribute (ord : HashOrder) (u : InternalUpdate) :
    ClientWork peers none none (some u) (distribute ord u)

variable {peers : ι → Peer}

theorem ClientWork.work {a : Option (ι ⊕ κ)} {j : Option Pb.Update} {o : Option InternalUpdate}
    {t : Code (Except Error Unit)} (h : ClientWork peers a j o t) : TwoTables.Work a o t := by
  cases h with
  | processUpdate i msg => exact .processUpdate _ (peers i) msg
  | announceRoute k vni dest nh => exact .announceRoute _ vni dest nh
  | withdrawRoute k vni dest nh => exact .withdrawRoute _ vni dest nh
  | distribute ord u => exact .distribute ord u

theorem speak_client : Speak peers (fun i ↦ some (.inl i)) (ClientWork (κ := κ) peers) where
  own h := by
    cases h with
    | processUpdate i msg => exact ⟨msg, rfl, rfl⟩
  others ha h := by
    cases h with
    | processUpdate i msg => exact absurd rfl (ha i)
    | announceRoute k vni dest nh => exact keepsTable_announceRoute vni dest nh
    | withdrawRoute k vni dest nh => exact keepsTable_withdrawRoute vni dest nh
    | distribute ord u => exact keepsTable_distribute ord u

variable [DecidableEq ι] [DecidableEq κ] {x y : Recorded (Option (ι ⊕ κ))}

structure SettledClient (peers : ι → Peer) (x y : Recorded (Option (ι ⊕ κ))) : Prop where
  begins : TwoTables.Begins x.pool
  entries : x.entries = []
  noCalls : x.pool.shared.world.client.calls = []
  run : Run (fun x y ↦ Journal.Step (ClientWork peers) x y ∧ Careful x.pool) x y
  idle : ∀ a, y.pool.Idle a
  free : ∀ a, (.metalbondState, .write) ∉ y.pool.held a
  drained : y.pool.shared.chan.queue = []

theorem SettledClient.has_iff (h : SettledClient peers x y)
    (haddrs : Function.Injective fun i ↦ (peers i).remoteAddr) (r : Route) :
    y.pool.shared.world.mb.routeTable.Has r ↔ ∃ i,
      r ∈ (said (peers i) ⟨∅, ∅, x.pool.shared.world.mb.mySubscriptions⟩
        (y.jobs (some (.inl i)))).routes := by
  have hhas := speak_client.has_iff haddrs (x := x) (y := y) (fun r k hk ↦ ?_) h.begins.idle
    h.entries (h.run.mono fun _ _ hstep ↦ hstep.1) (fun i ↦ h.idle _) r
  · simpa only [learned_of_new h.begins.learned] using hhas
  · rw [h.begins.learned, RouteTable.sources_new] at hk
    exact absurd hk (Finset.notMem_empty _)

/-- Once everything is done, the kernel has what the application has announced and what follows
from the `UPDATE`s of each peer, and of what it had before just what is none of the node's. -/
theorem kernel_of_streams {σ ν : Type} {net : Rtnetlink σ} {shown : RouteMessage → RouteMessage}
    {key : RouteMessage → ν} {Accepts : RouteMessage → Prop}
    (hkeyed : net.Keyed shown key Accepts)
    (haddrs : Function.Injective fun i ↦ (peers i).remoteAddr)
    (h : SettledClient peers x y) (client : NetlinkClient) (k : σ)
    (hinstallable : client.Installable net shown key Accepts y.pool.shared.chan.taken k)
    (routeMessage : RouteMessage) :
    routeMessage ∈ net.routes (client.kernelAfter net y.pool.shared.world.client.calls k) ↔
      (∃ r, (y.pool.shared.world.mb.myAnnouncements.Has r ∨ ∃ i,
          r ∈ (said (peers i) ⟨∅, ∅, x.pool.shared.world.mb.mySubscriptions⟩
            (y.jobs (some (.inl i)))).routes) ∧
        client.shows shown r = some routeMessage) ∨
      routeMessage ∈ net.routes k ∧
        ∀ u ∈ y.pool.shared.chan.taken, client.shows shown u.route ≠ some routeMessage := by
  have hpool : Run (fun c c' ↦ Pool.Step TwoTables.Work c c' ∧ Careful c) x.pool y.pool :=
    (Journal.run_pool h.run).mono fun _ _ hstep ↦
      ⟨hstep.1.mono fun _ _ _ hstart ↦ hstart.choose_spec.work, hstep.2⟩
  have hmirror := TwoTables.kernel_mirrors hkeyed h.begins h.noCalls hpool h.free (h.idle none)
    h.drained client k hinstallable routeMessage
  simpa only [h.has_iff haddrs] using hmirror

def server : Peer := Sample.peer 1 .outgoing

def listeningNode : Node :=
  let s := Sample.node false
  { s with world := s.world.modifyMb fun mb ↦ { mb with mySubscriptions := {100} } }

def learnedNode : Node := (exec [] (server.processUpdate (Sample.update .add)) listeningNode).shared

def learnedUpdate : InternalUpdate :=
  ⟨.add, 100, Sample.destination, Sample.nextHop, some server.remoteAddr⟩

theorem settled_learning : ∃ x y : Recorded (Option (Unit ⊕ Unit)),
    SettledClient (fun _ ↦ server) x y ∧ x.pool.shared = listeningNode ∧
      y.jobs (some (.inl ())) = [some (Sample.update .add)] ∧
      y.pool.shared.chan.taken = [learnedUpdate] := by
  let c := Sample.tasks (Option (Unit ⊕ Unit)) listeningNode
  let c₁ := c.set (some (.inl ())) ⟨[], .ret (.ok ())⟩ learnedNode
  let jobs : List (Option (Unit ⊕ Unit) × Option Pb.Update) :=
    [(some (.inl ()), some (Sample.update .add))]
  let R := fun s s' : Node ↦ s'.world.mb.myAnnouncements = s.world.mb.myAnnouncements
  let Kept (x y : Recorded (Option (Unit ⊕ Unit))) : Prop :=
    Journal.Step (ClientWork fun _ ↦ server) x y ∧ R x.pool.shared y.pool.shared
  have hrefl : Std.Refl R := ⟨fun _ ↦ rfl⟩
  have hheld₁ : ∀ a, c₁.held a = [] := Pool.unguarded_set (fun _ ↦ rfl) _ _ _
  have hupdate : Confined R (server.processUpdate (Sample.update .add)) :=
    server.confined_processUpdate _ fun action vni dest nh _ ↦
      ⟨fun _ _ ↦ rfl, fun s ↦ TwoTables.myAnnouncements_applyUpdate action vni dest nh _ s.world⟩
  have hlearn : Run Kept ⟨c, []⟩ ⟨c₁, jobs⟩ :=
    Journal.run_start (fun _ ↦ rfl) (Sample.idle_tasks ..)
      (.processUpdate () (Sample.update .add)) hupdate rfl
  let taken : Node := { learnedNode with chan := ⟨[learnedUpdate], [], false⟩ }
  let s : Node := { taken with world := { taken.world with
    client := (taken.world.client.call (clientCall learnedUpdate)).2 } }
  have hexec : exec [] (distribute default learnedUpdate) taken = .done (.ok ()) [] s :=
    exec_distribute_unlisted default taken rfl
  let c₂ := c₁.set none ⟨[], .ret (.ok ())⟩ s
  have hinstall : Run Kept ⟨c₁, jobs⟩ ⟨c₂, jobs ++ [(none, none)]⟩ :=
    Journal.run_receive hheld₁ ⟨.ok (), rfl⟩ rfl (.distribute default learnedUpdate) rfl
      (confined_distribute (R := R) (fun _ ↦ rfl) (fun _ _ _ ↦ rfl) default) hexec
  let Unannounced (x : Recorded (Option (Unit ⊕ Unit))) : Prop :=
    x.pool.shared.world.mb.myAnnouncements = RouteTable.new
  have hnew : Unannounced ⟨c, []⟩ := rfl
  have hrun := Run.along (hlearn.trans hinstall) hnew fun _ _ h hstep ↦ hstep.2.trans h
  refine ⟨⟨c, []⟩, ⟨c₂, jobs ++ [(none, none)]⟩, ?_, rfl, rfl, rfl⟩
  exact {
    begins := ⟨Sample.unused_tasks rfl rfl, rfl, rfl⟩
    entries := rfl
    noCalls := rfl
    run := hrun.mono fun _ _ h ↦ ⟨h.1.1, careful_of_disjoint fun r hr ↦ by
      rw [RouteTable.Has, h.2] at hr
      exact absurd rfl hr⟩
    idle := fun a ↦ by rcases a with _ | _ | _ <;> exact ⟨.ok (), rfl⟩
    free := fun a ↦ by
      rw [Pool.unguarded_set hheld₁]
      exact List.not_mem_nil
    drained := rfl }

theorem installable_learned {updates : List InternalUpdate} (h : updates = [learnedUpdate]) :
    Sample.netlinkClient.Installable (Sample.kernel default fun _ ↦ none) Sample.shown
      Sample.routeKey (fun route ↦ route.version ≠ none) updates ∅ := by
  subst h
  refine ⟨fun u _ route ↦ NetlinkClient.version_ne_none_of_asks, ?_, ?_⟩
  · intro u hu u' hu' _ _ _ _ _
    rw [List.mem_singleton.mp hu, List.mem_singleton.mp hu']
  · intro u _ route _ r hr
    exact absurd (Sample.mem_routes_kernel.mp hr).1 (Finset.notMem_empty r)

theorem kernel_of_streams_sample : ∃ y : Recorded (Option (Unit ⊕ Unit)),
    y.jobs (some (.inl ())) = [some (Sample.update .add)] ∧
      Sample.netlinkClient.message 1 (Sample.destination, Sample.nextHop) ∈
        (Sample.kernel default fun _ ↦ none).routes (Sample.netlinkClient.kernelAfter
          (Sample.kernel default fun _ ↦ none) y.pool.shared.world.client.calls ∅) := by
  obtain ⟨x, y, hsettled, hx, hjobs, htaken⟩ := settled_learning
  refine ⟨y, hjobs, ?_⟩
  refine (kernel_of_streams TwoTables.keyed_kernel (fun _ _ _ ↦ rfl) hsettled Sample.netlinkClient ∅
    (installable_learned htaken) _).mpr (.inl ⟨Sample.route, .inr ⟨(), ?_⟩, rfl⟩)
  rw [hjobs, hx]
  exact .inl rfl

end Client

section Server

open Convergence (NoNat Timely told Registered)

variable {ι κ : Type}

/-- The subscriber's own task, the connections, each with the `UPDATE`s of its peer, whatever
writes to the subscriber, and the distributor. -/
inductive ServerWork (p : Peer) (vni : Vni) (peers : ι → Peer) : Party (ι ⊕ κ) →
    Option Pb.Update → Option InternalUpdate → Code (Except Error Unit) → Prop
  | processSubscribe (ord : HashOrder) :
    ServerWork p vni peers .link none none (p.processSubscribe ord ⟨vni⟩)
  | processUpdate (i : ι) (msg : Pb.Update) (h : NoNat msg) :
    ServerWork p vni peers (.other (.inl i)) (some msg) none ((peers i).processUpdate msg)
  | writeOutgoing (k : κ) : ServerWork p vni peers (.other (.inr k)) none none p.writeOutgoing
  | distribute (ord : HashOrder) (u : InternalUpdate) :
    ServerWork p vni peers .distributor none (some u) (distribute ord u)

variable {p : Peer} {vni : Vni} {peers : ι → Peer}

theorem ServerWork.work {a : Party (ι ⊕ κ)} {j : Option Pb.Update} {o : Option InternalUpdate}
    {t : Code (Except Error Unit)} (h : ServerWork p vni peers a j o t) :
    Convergence.Work p vni a o t := by
  cases h with
  | processSubscribe ord => exact .processSubscribe ord
  | processUpdate i msg h => exact .processUpdate _ (peers i) msg h
  | writeOutgoing k => exact .writeOutgoing _
  | distribute ord u => exact .distribute ord u

theorem speak_server :
    Speak peers (fun i ↦ .other (.inl i)) (ServerWork (κ := κ) p vni peers) where
  own h := by
    cases h with
    | processUpdate i msg _ => exact ⟨msg, rfl, rfl⟩
  others ha h := by
    cases h with
    | processSubscribe ord => exact keepsTable_processSubscribe p ord ⟨vni⟩
    | processUpdate i msg _ => exact absurd rfl (ha i)
    | writeOutgoing k => exact keepsTable_writeOutgoing p
    | distribute ord u => exact keepsTable_distribute ord u

variable [DecidableEq ι] [DecidableEq κ] {x y : Recorded (Party (ι ⊕ κ))}

theorem timely_of_fills
    (hrun : Run (fun x y ↦ Journal.Step (ServerWork p vni peers) x y ∧
      Fills p x.pool.shared y.pool.shared) x y)
    (hroom : p.HasRoom y.pool.shared) (hkept : ∀ r, .remove r ∉ p.received y.pool.shared) :
    Run (fun x y ↦ Journal.Step (ServerWork p vni peers) x y ∧
      p.HasRoom x.pool.shared ∧ Timely p vni x.pool y.pool) x y := by
  refine (hrun.toward fun x ↦ x.pool.shared).mono fun z z' h ↦ ?_
  obtain ⟨hstep, hbefore, hafter⟩ := h
  exact ⟨hstep, hbefore.hasRoom hroom, fun r hremove ↦ (hafter.not_told (hkept r) hremove).elim⟩

structure SettledServer (p : Peer) (vni : Vni) (peers : ι → Peer)
    (x y : Recorded (Party (ι ⊕ κ))) : Prop where
  begins : Convergence.Begins p vni x.pool
  entries : x.entries = []
  sources : ∀ r, ∀ k ∈ x.pool.shared.world.mb.routeTable.sources r,
    ∃ i, k = some (peers i).remoteAddr
  run : Run (fun x y ↦ Journal.Step (ServerWork p vni peers) x y ∧
    p.HasRoom x.pool.shared ∧ Timely p vni x.pool y.pool) x y
  idle : ∀ a, y.pool.Idle a
  drained : y.pool.shared.chan.queue = []
  registered : Registered p vni y.pool.shared

/-- Once everything is done, a subscriber has been told the routes of its VNI that follow from
the `UPDATE`s of each peer. -/
theorem told_of_streams (haddrs : Function.Injective fun i ↦ (peers i).remoteAddr)
    (h : SettledServer p vni peers x y) :
    told p vni y.pool.shared = {r | r.1 = vni ∧ ∃ i,
      r ∈ (said (peers i) (learned (some (peers i).remoteAddr) x.pool.shared.world)
        (y.jobs (.other (.inl i)))).routes} := by
  have hpool : Run (fun c c' ↦
      Pool.Step (fun a o t ↦ ∃ j, ServerWork p vni peers a j o t) c c' ∧
        p.HasRoom c.shared ∧ Timely p vni c c') x.pool y.pool := Journal.run_pool h.run
  have hconverges := Convergence.told_eq_table h.begins (hpool.mono fun _ _ hstep ↦
    ⟨⟨hstep.1.mono fun _ _ _ hstart ↦ hstart.choose_spec.work, hstep.2.1⟩, hstep.2.2⟩)
    h.idle h.drained h.registered
  have hhas := speak_server.has_iff haddrs h.sources h.begins.idle h.entries
    (h.run.mono fun _ _ hstep ↦ hstep.1) (fun i ↦ h.idle _)
  simpa only [hhas] using hconverges

def subscriber : Peer := Sample.peer 1 .incoming

def speaker : Peer := Sample.peer 2 .incoming

def connectedNode : Node :=
  let s := Sample.node true
  { s with world := s.world.modifyMb fun mb ↦ { mb with
      peers := mb.peers.insert subscriber.remoteAddr subscriber } }

def subscribedNode : Node := subscriber.subscribed 100 connectedNode

def updatedNode : Node :=
  (exec [] (speaker.processUpdate (Sample.update .add)) subscribedNode).shared

def spokenUpdate : InternalUpdate :=
  ⟨.add, 100, Sample.destination, Sample.nextHop, some speaker.remoteAddr⟩

theorem begins_connectedNode :
    Convergence.Begins subscriber 100 (Sample.tasks (Party (Unit ⊕ Unit)) connectedNode) where
  toUnused := Sample.unused_tasks rfl rfl
  plain := {
    known := rfl
    unique := by
      intro addr q h _
      by_contra haddr
      have hnone : connectedNode.world.mb.peers.lookup addr = none :=
        (Finmap.lookup_insert_of_ne _ haddr).trans (Finmap.lookup_empty addr)
      cases hnone.symm.trans h
    noServer := rfl
    noNat := fun r hr ↦ absurd (RouteTable.sources_new r) hr }
  unregistered := List.not_mem_nil
  untold := rfl

theorem exec_subscribed : exec [] (subscriber.processSubscribe default ⟨100⟩) connectedNode =
    .done (.ok ()) [] subscribedNode := by
  have hnone : subscriber.snapshotFor default 100 connectedNode = [] := by
    refine List.eq_nil_iff_forall_not_mem.mpr fun r hr ↦ ?_
    exact ((mem_snapshotFor _ _ _).mp hr).2.1 (RouteTable.sources_new r)
  have hunlisted : subscriber.remoteAddr ∉ valueAt connectedNode.world.mb.subscribers 100 :=
    List.not_mem_nil
  have hdone := exec_processSubscribe default subscriber connectedNode ⟨100⟩
  rw [if_neg hunlisted, hnone] at hdone
  refine hdone.trans ?_
  simp only [PeerCell.sendRoutes, withCell_cellOf]
  rfl

theorem exec_distribute_spoken : ∃ s,
    exec [] (distribute default spokenUpdate)
        { updatedNode with chan := ⟨[spokenUpdate], [], false⟩ } = .done (.ok ()) [] s ∧
      (subscriber.cellOf s).tx.history = [.update (Sample.update .add)] ∧
      subscriber.HasRoom s ∧ s.world.mb = updatedNode.world.mb ∧
      s.chan = ⟨[spokenUpdate], [], false⟩ := by
  rw [exec_distribute, @peersToNotify_singleton default spokenUpdate.vni updatedNode.world.mb
    subscriber.remoteAddr subscriber rfl rfl]
  exact ⟨_, rfl, rfl, ⟨rfl, by decide⟩, rfl, rfl⟩

theorem settled_telling : ∃ x y : Recorded (Party (Unit ⊕ Unit)),
    SettledServer subscriber 100 (fun _ ↦ speaker) x y ∧ x.pool.shared = connectedNode ∧
      y.jobs (.other (.inl ())) = [some (Sample.update .add)] ∧
      (subscriber.cellOf y.pool.shared).tx.history = [.update (Sample.update .add)] := by
  let c := Sample.tasks (Party (Unit ⊕ Unit)) connectedNode
  let c₁ := c.set .link ⟨[], .ret (.ok ())⟩ subscribedNode
  let c₂ := c₁.set (.other (.inl ())) ⟨[], .ret (.ok ())⟩ updatedNode
  obtain ⟨s, hexec, htx, hroom, hmb, hchan⟩ := exec_distribute_spoken
  let c₃ := c₂.set .distributor ⟨[], .ret (.ok ())⟩ s
  let jobs : List (Party (Unit ⊕ Unit) × Option Pb.Update) :=
    [(.link, none), (.other (.inl ()), some (Sample.update .add))]
  let x : Recorded (Party (Unit ⊕ Unit)) := ⟨c, []⟩
  let y : Recorded (Party (Unit ⊕ Unit)) := ⟨c₃, jobs ++ [(.distributor, none)]⟩
  let Fill (x y : Recorded (Party (Unit ⊕ Unit))) : Prop :=
    Journal.Step (ServerWork subscriber 100 fun _ ↦ speaker) x y ∧
      Fills subscriber x.pool.shared y.pool.shared
  have hheld₁ : ∀ a, c₁.held a = [] := Pool.unguarded_set (fun _ ↦ rfl) _ _ _
  have hheld₂ : ∀ a, c₂.held a = [] := Pool.unguarded_set hheld₁ _ _ _
  have hsubscribe : Run Fill x ⟨c₁, [(.link, none)]⟩ :=
    Journal.run_start (fun _ ↦ rfl) (Sample.idle_tasks ..) (.processSubscribe default)
      ((acts_fills _).composes.processSubscribe default ⟨100⟩) exec_subscribed
  have hnoNat : NoNat (Sample.update .add) := by
    intro _ _ _ _ hparse
    cases hparse
    nofun
  have hupdate : Run Fill ⟨c₁, [(.link, none)]⟩ ⟨c₂, jobs⟩ :=
    Journal.run_start hheld₁ ⟨.ok (), rfl⟩ (.processUpdate () _ hnoNat)
      ((acts_fills _).composes.processUpdate _) rfl
  have htell : Run Fill ⟨c₂, jobs⟩ y :=
    Journal.run_receive hheld₂ ⟨.ok (), rfl⟩ rfl (.distribute default spokenUpdate)
      (fills_of_tx rfl) (fills_distribute ..) hexec
  have hreceived : subscriber.received y.pool.shared = [.add Sample.route] :=
    congrArg (List.filterMap GeneratedMessage.change?) htx
  have hfirst (r : Route) (k : PeerKey) (hk : k ∈ connectedNode.world.mb.routeTable.sources r) :
      ∃ _ : Unit, k = some speaker.remoteAddr := by
    have hnone : k ∈ RouteTable.new.sources r := hk
    rw [RouteTable.sources_new] at hnone
    exact absurd hnone (Finset.notMem_empty k)
  refine ⟨x, y, ?_, rfl, rfl, htx⟩
  exact {
    begins := begins_connectedNode
    entries := rfl
    sources := hfirst
    run := timely_of_fills (hsubscribe.trans (hupdate.trans htell)) hroom fun r hr ↦ by
      rw [hreceived, List.mem_singleton] at hr
      cases hr
    idle := fun a ↦ by rcases a with _ | _ | _ | _ <;> exact ⟨.ok (), rfl⟩
    drained := congrArg Channel.queue hchan
    registered := by
      rw [Registered, show y.pool.shared.world.mb = _ from hmb]
      exact Finset.mem_insert_self _ _ }

theorem told_of_streams_sample : ∃ y : Recorded (Party (Unit ⊕ Unit)),
    Sample.route ∈ told subscriber 100 y.pool.shared ∧
      told subscriber 100 y.pool.shared = {r | r.1 = 100 ∧ ∃ _ : Unit,
        r ∈ (said speaker (learned (some speaker.remoteAddr) connectedNode.world)
          [some (Sample.update .add)]).routes} := by
  obtain ⟨x, y, hsettled, hx, hjobs, htx⟩ := settled_telling
  have htold := told_of_streams (fun _ _ _ ↦ rfl) hsettled
  simp only [hx, hjobs] at htold
  refine ⟨y, ?_, htold⟩
  rw [htold]
  exact ⟨rfl, (), .inl rfl⟩

end Server

end MetalBond.SaidRoutes
