import MetalBond.Async.Consumer
import MetalBond.Ledger

namespace MetalBond.Backpressure

open Async Task Collections HashMap Peer

theorem avoids_sourceIsServer (source : Option SocketAddr) :
    Avoids Lock.metalbondState (sourceIsServer source) := by
  cases source with
  | none => exact .gets _
  | some addr =>
    refine .bind (.gets _) fun found ↦ ?_
    cases found with
    | none => exact .ret _
    | some source => exact .reading (by simp) _

theorem avoids_forward (update : InternalUpdate) (peer : Peer) :
    Avoids Lock.metalbondState (forward update peer) := by
  unfold forward
  split
  · exact .ret _
  · refine .bind (avoids_sourceIsServer _) fun source ↦ .bind (.reading (by simp) _) fun target ↦ ?_
    split
    · exact .ret _
    · exact .bind (.update _) fun _ ↦ .ret _

theorem avoids_forwardAll (update : InternalUpdate) (peers : List Peer) :
    Avoids Lock.metalbondState (forwardAll update peers) := by
  induction peers with
  | nil => exact .ret _
  | cons peer rest ih => exact .bind (avoids_forward update peer) fun _ ↦ ih

theorem enters_distribute (ord : HashOrder) (update : InternalUpdate) :
    Enters Lock.metalbondState (distribute ord update) := by
  refine ⟨do
    let _ ← callClient (clientCall update)
    let peers ← gets fun w ↦ peersToNotify ord update.vni w.mb
    forwardAll update peers
    release .metalbondState .read
    return .ok (), rfl, ?_⟩
  refine .bind (.update _) fun _ ↦ .bind (.gets _) fun peers ↦ ?_
  refine .bind (avoids_forwardAll update peers) fun _ ↦ ?_
  exact .bind (.release _ _) fun _ ↦ .ret _

/-- The bound of the channel that `new` makes. -/
def routeUpdateCapacity : ℕ := 1024

/-- What the tasks of a node do that send updates; the remaining task, `none`, is the
distributor, which takes the next update. -/
inductive Work {κ : Type} : Option κ → Option InternalUpdate → Code (Except Error Unit) → Prop
  | processUpdate (k : κ) (self : Peer) (msg : Pb.Update) :
    Work (some k) none (self.processUpdate msg)
  | processUnsubscribe (k : κ) (ord : HashOrder) (self : Peer) (unsub : Pb.Subscription) :
    Work (some k) none (self.processUnsubscribe ord unsub)
  | cleanupPeerState (k : κ) (ord : HashOrder) (self : Peer) :
    Work (some k) none (do
      self.cleanupPeerState ord
      return .ok ())
  | removePeer (k : κ) (parse : String → Option SocketAddr) (ord : HashOrder) (addr : String) :
    Work (some k) none (MetalBond.removePeer parse ord addr)
  | announceRoute (k : κ) (vni : Vni) (dest : Destination) (nh : NextHop) :
    Work (some k) none (MetalBond.announceRoute vni dest nh)
  | withdrawRoute (k : κ) (vni : Vni) (dest : Destination) (nh : NextHop) :
    Work (some k) none (MetalBond.withdrawRoute vni dest nh)
  | distribute (ord : HashOrder) (u : InternalUpdate) : Work none (some u) (distribute ord u)

abbrev FairTasks (ι : Type) := FairPool ι Lock World InternalUpdate (Except Error Unit)

structure Fresh {ι : Type} (c : FairTasks ι) : Prop where
  idle : ∀ i, c.Idle i
  unguarded : ∀ i, c.held i = []
  requests : c.requests = []
  senders : c.senders = []
  queue : c.shared.chan.queue = []
  chanOpen : c.shared.chan.closed = false

section Every

variable {κ : Type}

theorem consumes_work : FairPool.Consumes none Lock.metalbondState (Work (κ := κ)) where
  only i u t h := by cases h with | distribute => rfl
  enters o t h := by
    cases h with
    | distribute ord u => exact ⟨⟨u, rfl⟩, enters_distribute ord u⟩

variable [DecidableEq κ]

abbrev Step (c c' : FairTasks (Option κ)) : Prop := FairPool.Step routeUpdateCapacity Work c c'

/-- A producer keeps a guard of the shared state while it waits for a free slot, and the
distributor waits for its read guard. -/
abbrev Deadlocked (c : FairTasks (Option κ)) : Prop :=
  FairPool.Deadlocked none .metalbondState routeUpdateCapacity c

/-- While the distributor has an update but no guard yet, nobody starts to wait for a slot,
or comes to stay without one, or asks for the write guard, if that would bar its way. -/
abbrev Careful (c c' : FairTasks (Option κ)) : Prop :=
  FairPool.Careful none .metalbondState routeUpdateCapacity c c'

variable {c c' : FairTasks (Option κ)}

theorem never_deadlocked (hfresh : Fresh c)
    (hrun : Run (fun c c' ↦ Step c c' ∧ Careful c c') c c') : ¬ Deadlocked c' :=
  FairPool.not_deadlocked_of_careful consumes_work hfresh.idle hfresh.requests hrun

end Every

theorem sendRemovals_append (source : SocketAddr) (routes routes' : List Route) :
    sendRemovals source (routes ++ routes') =
      sendRemovals source routes >>= fun _ ↦ sendRemovals source routes' := by
  induction routes with
  | nil => rfl
  | cons r rest ih =>
    simp only [List.cons_append, sendRemovals, ih, bind_assoc]

theorem avoids_sendRemovals (l : Lock) (source : SocketAddr) (routes : List Route) :
    Avoids l (sendRemovals source routes) := by
  induction routes with
  | nil => exact .ret _
  | cons r rest ih => exact .bind (.sendOn _) fun _ ↦ ih

section ManyRoutes

variable {κ : Type} [DecidableEq κ] {c : FairTasks (Option κ)} {addr : SocketAddr}

def forgetPeer (ord : HashOrder) (addr : SocketAddr) : Code (List Route) := do
  acquire .metalbondState .write
  modify (abortManager addr)
  modify (shutdownPeer addr)
  removeRoutesFromPeer ord addr

def passOn (addr : SocketAddr) (removed : List Route) : Code (Except Error Unit) := do
  sendRemovals addr removed
  release .metalbondState .write
  return .ok ()

theorem removePeer_eq (ord : HashOrder) {parse : String → Option SocketAddr} {addrStr : String}
    (h : parse addrStr = some addr) :
    removePeer parse ord addrStr = forgetPeer ord addr >>= passOn addr := by
  rw [removePeer, h]
  rfl

theorem passOn_append (addr : SocketAddr) (routes routes' : List Route) :
    passOn addr (routes ++ routes') = sendRemovals addr routes >>= fun _ ↦ passOn addr routes' := by
  rw [passOn, sendRemovals_append, bind_assoc]
  rfl

structure Passing (k : κ) (addr : SocketAddr) (routes : List Route) (n : ℕ)
    (c : FairTasks (Option κ)) : Prop where
  code : c.code (some k) = passOn addr routes
  held : c.held (some k) = [(.metalbondState, .write)]
  others : ∀ j, j ≠ some k → c.held j = []
  requests : ∀ r ∈ c.requests, r = (none, .metalbondState, .read)
  senders : c.senders = []
  chanOpen : c.shared.chan.closed = false
  queue : c.shared.chan.queue.length = n

theorem exec_forgetPeer (ord : HashOrder) (addr : SocketAddr) (s : Node) :
    exec [] (forgetPeer ord addr) s =
      .done (s.world.mb.routeTable.removeRoutesFromPeer ord addr).1 [(.metalbondState, .write)]
        { s with world := (shutdownPeer addr (abortManager addr s.world)).modifyMb fun mb ↦
          { mb with routeTable := s.world.mb.routeTable.dropPeer addr } } := by
  simp [forgetPeer, exec_bind, exec_acquire, removeRoutesFromPeer, RouteTable.removeRoutesFromPeer]

theorem run_forgetPeer (hfresh : Fresh c) (k : κ) (ord : HashOrder)
    {parse : String → Option SocketAddr} {addrStr : String} (h : parse addrStr = some addr) :
    ∃ c', Run Step c c' ∧ c'.Idle none ∧ c'.requests = [] ∧
      Passing k addr (c.shared.world.mb.routeTable.removeRoutesFromPeer ord addr).1 0 c' := by
  have hstart : Step c _ := .start (some k) _ (hfresh.idle _) (.removePeer k parse ord addrStr)
  rw [hfresh.unguarded, removePeer_eq ord h, hfresh.requests, hfresh.senders] at hstart
  have hrun := @FairPool.run_alone _ _ _ _ _ _ _ _ routeUpdateCapacity Work c.toPool (some k) []
    [(.metalbondState, .write)] c.shared _ [] (forgetPeer ord addr) (passOn addr) _
    (fun j _ ↦ hfresh.unguarded j) nofun hfresh.chanOpen (exec_forgetPeer ord addr c.shared)
    (by simp [hfresh.queue])
  refine ⟨_, .cons hstart (hrun.mono fun _ _ hstep ↦ hstep.1), ?_, rfl, ?_⟩
  · obtain ⟨a, ha⟩ := hfresh.idle none
    refine ⟨a, ?_⟩
    rw [Pool.code_set, Function.update_of_ne (Option.some_ne_none k).symm]
    exact ha
  · refine ⟨?_, ?_, fun j hj ↦ ?_, nofun, rfl, hfresh.chanOpen, ?_⟩
    · rw [Pool.code_set, Function.update_self]
    · rw [Pool.held_set, Function.update_self]
    · rw [Pool.held_set, Function.update_of_ne hj]
      exact hfresh.unguarded j
    · simp [hfresh.queue]

theorem Passing.run_sendRemovals {k : κ} {routes routes' : List Route} {n : ℕ}
    (h : Passing k addr (routes ++ routes') n c) (hroom : n + routes.length ≤ routeUpdateCapacity) :
    ∃ c', Run Step c c' ∧ c'.code none = c.code none ∧ c'.requests = c.requests ∧
      Passing k addr routes' (n + routes.length) c' := by
  have hexec := exec_sendRemovals (c.held (some k)) c.shared addr routes
  rw [Channel.sendAll_of_open h.chanOpen] at hexec
  have hrun := @FairPool.run_segment _ _ _ _ _ _ _ _ routeUpdateCapacity Work (some k) _ _
    (sendRemovals addr routes) (fun _ ↦ passOn addr routes') () c h.others
    (h.code.trans (passOn_append addr routes routes')) (fun r hr ↦ ?_) h.senders h.chanOpen hexec ?_
  · refine ⟨_, hrun.mono fun _ _ hstep ↦ hstep.1, ?_, rfl, ?_⟩
    · rw [Pool.code_set, Function.update_of_ne (Option.some_ne_none k).symm]
    · refine ⟨?_, ?_, fun j hj ↦ ?_, h.requests, rfl, ?_, ?_⟩
      · rw [Pool.code_set, Function.update_self]
      · rw [Pool.held_set, Function.update_self, h.held]
      · rw [Pool.held_set, Function.update_of_ne hj]
        exact h.others j hj
      · simp [h.chanOpen]
      · simp [h.queue]
  · obtain rfl := h.requests r hr
    exact ⟨nofun, avoids_sendRemovals _ addr routes⟩
  · simpa [h.queue] using hroom

theorem Passing.run_receive (ord : HashOrder) {k : κ} {routes : List Route} {n : ℕ}
    (h : Passing k addr routes (n + 1) c) (hidle : c.Idle none) (hrequests : c.requests = []) :
    ∃ c', Run Step c c' ∧ (none, .metalbondState, .read) ∈ c'.requests ∧
      Passing k addr routes n c' := by
  obtain ⟨u, rest, hqueue⟩ := List.exists_cons_of_length_eq_add_one h.queue
  have hrecv : c.shared.chan.recv =
      some (u, { c.shared.chan with taken := c.shared.chan.taken ++ [u], queue := rest }) := by
    rw [Channel.recv, hqueue]
  have hreceive : Step c _ := .receive none u _ _ hidle hrecv (.distribute ord u)
  obtain ⟨code, hcode, -⟩ := enters_distribute ord u
  rw [hcode] at hreceive
  have hrequest := @FairPool.Step.request _ _ _ _ _ _ _ routeUpdateCapacity Work
    ⟨c.set none ⟨c.held none, .lock .metalbondState .read code⟩
      { c.shared with chan := { c.shared.chan with
        taken := c.shared.chan.taken ++ [u], queue := rest } }, c.requests, c.senders⟩
    none .metalbondState .read code (by rw [Pool.code_set, Function.update_self])
    (by rw [hrequests]; nofun)
  refine ⟨_, .cons hreceive (.cons hrequest .refl), by simp, ?_, ?_, fun j hj ↦ ?_, ?_, h.senders,
    h.chanOpen, ?_⟩
  · rw [Pool.code_set, Function.update_of_ne (Option.some_ne_none k)]
    exact h.code
  · rw [Pool.held_set, Function.update_of_ne (Option.some_ne_none k)]
    exact h.held
  · rw [Pool.held_set, Function.update_eq_self]
    exact h.others j hj
  · rw [hrequests]
    simp
  · have hlength := h.queue
    rw [hqueue] at hlength
    simpa using hlength

theorem Passing.deadlocked {k : κ} {r : Route} {routes : List Route}
    (h : Passing k addr (r :: routes) routeUpdateCapacity c)
    (hwaits : (none, .metalbondState, .read) ∈ c.requests) : ∃ c', Step c c' ∧ Deadlocked c' := by
  have hcode : c.code (some k) = .send (removal addr r) fun _ ↦ passOn addr routes := by
    rw [h.code]
    exact passOn_append addr [r] routes
  refine ⟨_, .offer (some k) _ _ hcode (by rw [h.senders]; nofun), ⟨hwaits, Or.inl ⟨some k, ?_⟩⟩,
    some k, ⟨.write, ?_⟩, by simp, h.chanOpen, h.queue.ge⟩
  · exact h.held ▸ List.mem_singleton.mpr rfl
  · exact h.held ▸ List.mem_singleton.mpr rfl

/-- A peer whose routes outnumber the queue and the update in the distributor's hands. -/
theorem deadlock_of_many_routes (hfresh : Fresh c) (k : κ) (ord : HashOrder)
    {parse : String → Option SocketAddr} {addrStr : String} (h : parse addrStr = some addr)
    (hmany : routeUpdateCapacity + 1 <
      (c.shared.world.mb.routeTable.removeRoutesFromPeer ord addr).1.length) :
    ∃ c', Run Step c c' ∧ Deadlocked c' := by
  obtain ⟨c₁, hrun₁, hidle, hrequests, hpassing₁⟩ := run_forgetPeer hfresh k ord h
  generalize (c.shared.world.mb.routeTable.removeRoutesFromPeer ord addr).1 = removed at *
  obtain ⟨first, removed, rfl⟩ := List.exists_cons_of_length_pos (by omega : 0 < removed.length)
  have hsplit := List.take_append_drop routeUpdateCapacity removed
  obtain ⟨last, rest, hlast⟩ := List.exists_cons_of_length_pos
    (l := removed.drop routeUpdateCapacity) (by simp at hmany ⊢; omega)
  have hlength : (removed.take routeUpdateCapacity).length = routeUpdateCapacity := by
    simp at hmany ⊢
    omega
  obtain ⟨c₂, hrun₂, hcode, hrequests₂, hpassing₂⟩ :=
    @Passing.run_sendRemovals _ _ _ _ _ [first] _ _ hpassing₁ (by simp [routeUpdateCapacity])
  have hidle₂ : c₂.Idle none := by
    obtain ⟨a, ha⟩ := hidle
    exact ⟨a, hcode.trans ha⟩
  obtain ⟨c₃, hrun₃, hwaits, hpassing₃⟩ := hpassing₂.run_receive ord hidle₂ (hrequests₂.trans hrequests)
  rw [← hsplit, hlast] at hpassing₃
  obtain ⟨c₄, hrun₄, -, hrequests₄, hpassing₄⟩ := hpassing₃.run_sendRemovals (by simp)
  rw [hlength, Nat.zero_add] at hpassing₄
  obtain ⟨c₅, hstep₅, hdead⟩ := hpassing₄.deadlocked (hrequests₄ ▸ hwaits)
  exact ⟨c₅, (((hrun₁.trans hrun₂).trans hrun₃).trans hrun₄).tail hstep₅, hdead⟩

end ManyRoutes

namespace Sample

open MetalBond.Sample

def manyRoutes (peer : SocketAddr) : ℕ → RouteTable
  | 0 => .new
  | n + 1 => ((manyRoutes peer n).addNextHop (.ofNat n) destination nextHop (some peer)).2

theorem mem_sources_manyRoutes {peer : SocketAddr} {i n : ℕ} (h : i < n) :
    some peer ∈ (manyRoutes peer n).sources (.ofNat i, destination, nextHop) := by
  induction n with
  | zero => omega
  | succ n ih =>
    rw [manyRoutes, RouteTable.sources_addNextHop]
    split
    · exact Finset.mem_insert_self _ _
    · next hne => exact ih (Nat.lt_of_le_of_ne (Nat.le_of_lt_succ h) fun he ↦ hne (by rw [he]))

theorem le_length_manyRoutes (ord : HashOrder) (peer : SocketAddr) {n : ℕ} (hn : n ≤ 2 ^ 32) :
    n ≤ ((manyRoutes peer n).removeRoutesFromPeer ord peer).1.length := by
  have hnodup : ((List.range n).map fun i ↦ (UInt32.ofNat i, destination, nextHop)).Nodup := by
    refine List.Nodup.map_on (fun i hi j hj he ↦ ?_) List.nodup_range
    rw [List.mem_range] at hi hj
    have hof : UInt32.ofNat i = UInt32.ofNat j := congrArg Prod.fst he
    have htoNat := congrArg UInt32.toNat hof
    have hsize : UInt32.size = 2 ^ 32 := rfl
    rwa [UInt32.toNat_ofNat_of_lt' (by omega), UInt32.toNat_ofNat_of_lt' (by omega)] at htoNat
  have hsub : (List.range n).map (fun i ↦ (UInt32.ofNat i, destination, nextHop)) ⊆
      ((manyRoutes peer n).removeRoutesFromPeer ord peer).1 := by
    intro r hr
    obtain ⟨i, hi, rfl⟩ := List.mem_map.mp hr
    rw [RouteTable.mem_removeRoutesFromPeer]
    exact mem_sources_manyRoutes (List.mem_range.mp hi)
  simpa using (hnodup.subperm hsub).length_le

def serverWith (t : RouteTable) : Node :=
  let s := node true
  { s with world := s.world.modifyMb fun mb ↦ { mb with routeTable := t } }

def fairTasks (s : Node) : FairTasks (Option Unit) := ⟨tasks _ s, [], []⟩

theorem fresh_fairTasks {s : Node} (hqueue : s.chan.queue = []) (hopen : s.chan.closed = false) :
    Fresh (fairTasks s) :=
  ⟨idle_tasks s, fun _ ↦ rfl, rfl, rfl, hqueue, hopen⟩

end Sample

theorem remove_peer_deadlocks : ¬ ∀ c c' : FairTasks (Option Unit),
    Fresh c → Run Step c c' → ¬ Deadlocked c' := by
  intro hnever
  let peer := MetalBond.Sample.addr 1
  let s := Sample.serverWith (Sample.manyRoutes peer 1026)
  have hfresh : Fresh (Sample.fairTasks s) := Sample.fresh_fairTasks rfl rfl
  have hmany := Sample.le_length_manyRoutes default peer (n := 1026) (by omega)
  obtain ⟨c', hrun, hdead⟩ := @deadlock_of_many_routes _ _ _ peer hfresh () default
    (fun _ ↦ some peer) "10.10.10.10:1" rfl hmany
  exact hnever _ c' hfresh hrun hdead

theorem never_deadlocked_sample : ∃ c' : FairTasks (Option Unit),
    c'.shared.chan.queue ≠ [] ∧ ¬ Deadlocked c' := by
  let c := Sample.fairTasks (MetalBond.Sample.node false)
  let announce := announceRoute 100 MetalBond.Sample.destination MetalBond.Sample.nextHop
  have hfresh : Fresh c := Sample.fresh_fairTasks rfl rfl
  have hstart : Step c ⟨c.set (some ()) ⟨[], announce⟩ c.shared, [], []⟩ :=
    .start (some ()) announce (hfresh.idle _) (.announceRoute () _ _ _)
  let s' := (exec [] announce c.shared).shared
  have hexec : exec [] announce c.shared = .done (.ok ()) [] s' := rfl
  have hrest := @FairPool.run_alone _ _ _ _ _ _ _ _ routeUpdateCapacity Work c.toPool (some ()) [] []
    c.shared s' [] announce .ret _ (fun _ _ ↦ rfl) nofun rfl hexec (by decide)
  rw [bind_ret] at hrest
  have hrun : Run (fun d d' ↦ Step d d' ∧ Careful d d') c _ :=
    .cons ⟨hstart, FairPool.careful_of_room (by decide)⟩ (hrest.mono fun d d' hstep ↦
      ⟨hstep.1, FairPool.careful_of_room (hstep.2.trans_lt (by decide))⟩)
  exact ⟨_, List.cons_ne_nil _ _, never_deadlocked hfresh hrun⟩

end MetalBond.Backpressure
