import MetalBond.AppendOnly
import MetalBond.Async.Lapse
import MetalBond.Deliveries
import MetalBond.TableExec

namespace MetalBond.FirstSubscription

open Async Task Collections HashMap Peer

inductive Actor (κ : Type)
  | distributor
  | subscriber (k : κ)
  | handler (k : κ)
  deriving DecidableEq

variable {κ : Type}

/-- A client subscribes while its servers send updates. It connects to its peers. -/
inductive Work : Actor κ → Option InternalUpdate → Code (Except Error Unit) → Prop
  | subscribe (k : κ) (ord : HashOrder) (vni : Vni) : Work (.subscriber k) none (subscribe ord vni)
  | processUpdate (k : κ) (peer : Peer) (outgoing : peer.direction = .outgoing) (msg : Pb.Update) :
    Work (.handler k) none (peer.processUpdate msg)
  | distribute (ord : HashOrder) (u : InternalUpdate) : Work .distributor (some u) (distribute ord u)

/-- What is left of `distribute` once it has the guard. -/
def distributing (ord : HashOrder) (u : InternalUpdate) : Code (Except Error Unit) := do
  let _ ← callClient (clientCall u)
  notifySubscribers ord u

/-- The update waits in the channel, or the distributor has it and has not yet called the OS
client. -/
def Pending (u : InternalUpdate) (c : Tasks (Actor κ)) : Prop :=
  u ∈ c.shared.chan.queue ∨
    ∃ ord, c.code .distributor = distribute ord u ∨ c.code .distributor = distributing ord u

def Clears (vni : Vni) (s s' : Node) : Prop :=
  s'.world.client.calls = s.world.client.calls ++ [.clearRoutesForVni vni]

/-- The OS routes of the VNI are cleared only while each of them is the subject of some
pending update. -/
def Spares (vni : Vni) (c c' : Tasks (Actor κ)) : Prop :=
  Clears vni c.shared c'.shared → ∀ r : Route, r.1 = vni → r ∈ c.shared.world.client.routes →
    ∃ u, Pending u c ∧ u.route = r

structure Begins (vni : Vni) (c : Tasks (Actor κ)) : Prop extends Unused c where
  client : c.shared.world.mb.isServer = false
  unsubscribed : vni ∉ c.shared.world.mb.mySubscriptions
  unlearned : ∀ r : Route, r.1 = vni → ¬ c.shared.world.mb.routeTable.Has r
  uninstalled : ∀ r : Route, r.1 = vni → r ∉ c.shared.world.client.routes

structure Settled (c : Tasks (Actor κ)) : Prop where
  returned : ∀ k, c.code (.subscriber k) = .ret (.ok ())
  drained : c.shared.chan.queue = []
  distributed : c.Idle .distributor
  unguarded : ∀ i, (.metalbondState, .write) ∉ c.held i

def Installed (vni : Vni) (s : Node) : Prop :=
  ∀ r : Route, r.1 = vni → s.world.mb.routeTable.Has r → r ∈ s.world.client.routes

variable {vni : Vni} {s s' : Node}

section Table

variable {first : Set Route}

theorem follows_announceSubscription (v : Vni) (msg : GeneratedMessage) (peers : List Peer) :
    Follows (tableMonitor first).protocol (fun σ _ ↦ σ = none)
      (announceSubscription v (·.sendMessage msg) peers) none := by
  refine (quiet_notifyEstablished quiet_ledger (by simp) (fun _ _ _ ↦ rfl) msg peers).andThen
    fun _ ↦ (quiet_ledger.acquires (by simp)).andThen fun _ ↦ ?_
  exact (quiet_ledger.update fun _ ↦ rfl).andThen fun ok ↦
    (quiet_ledger.releases (by simp)).andThen fun _ ↦ .ret rfl

theorem follows_subscribe (ord : HashOrder) (v : Vni) :
    Follows (tableMonitor first).protocol (fun σ _ ↦ σ = none) (subscribe ord v) none := by
  refine Monitor.follows_enter.bind fun σ _ hσ ↦ ?_
  obtain ⟨view, rfl, hgood⟩ := hσ
  have hinside := Monitor.quiet_inside (M := tableMonitor first) view
  have hrefl : Std.Refl fun s s' : Node ↦
      (tableMonitor first).view s' = (tableMonitor first).view s := ⟨fun _ ↦ rfl⟩
  refine (hinside.gets _).andThen fun isServer ↦ ?_
  split
  · exact (Monitor.follows_leave hgood).andThen fun _ ↦ .ret rfl
  · refine (hinside.update fun _ ↦ rfl).andThen fun inserted ↦ ?_
    split
    · refine (hinside.gets _).andThen fun peers ↦ (Monitor.follows_leave hgood).andThen fun _ ↦ ?_
      exact follows_announceSubscription v (.subscribe ⟨v⟩) peers
    · exact (Monitor.follows_leave hgood).andThen fun _ ↦ .ret rfl

theorem Work.follows {i : Actor κ} {o : Option InternalUpdate} {t : Code (Except Error Unit)}
    (h : Work i o t) : Follows (tableMonitor first).protocol (fun σ _ ↦ σ = none) t none := by
  cases h with
  | subscribe k ord v => exact follows_subscribe ord v
  | processUpdate k peer _ msg => exact follows_processUpdate peer msg
  | distribute ord u => exact follows_distribute ord u

end Table

abbrev SameClient (s s' : Node) : Prop := s'.world.client = s.world.client

instance : Std.Refl SameClient := ⟨fun _ ↦ rfl⟩

inductive Clearing : (World → World) → Prop
  | clear (v : Vni) :
    Clearing fun w ↦ { w with client := (w.client.call (.clearRoutesForVni v)).2 }

theorem clearing_announceSubscription (v : Vni) (msg : GeneratedMessage) (peers : List Peer) :
    ConfinedBut Clearing SameClient (announceSubscription v (·.sendMessage msg) peers) := by
  have hsends : Confined SameClient (notifyEstablished (·.sendMessage msg) peers) :=
    confined_notifyEstablished (fun _ ↦ .update fun _ ↦ rfl) peers
  refine .bind (.of_confined hsends) fun _ ↦ .bind (.of_confined (.acquire ..)) fun _ ↦ ?_
  exact .bind (.update (.clear v)) fun ok ↦ .bind (.of_confined (.release ..)) fun _ ↦
    .of_confined (.ret _)

theorem clearing_subscribe (ord : HashOrder) (v : Vni) :
    ConfinedBut Clearing SameClient (subscribe ord v) := by
  refine .bind (.of_confined (.acquire ..)) fun _ ↦ .bind (.of_confined (.gets _)) fun isServer ↦ ?_
  split
  · exact .of_confined (.bind (.release ..) fun _ ↦ .ret _)
  · refine .bind (.of_confined (.update fun _ ↦ rfl)) fun inserted ↦ ?_
    split
    · refine .bind (.of_confined (.gets _)) fun peers ↦ .bind (.of_confined (.release ..)) fun _ ↦ ?_
      exact clearing_announceSubscription v (.subscribe ⟨v⟩) peers
    · exact .of_confined (.bind (.release ..) fun _ ↦ .ret _)

theorem Work.clearing {i : Actor κ} {o : Option InternalUpdate} {t : Code (Except Error Unit)}
    (h : Work i o t) (hi : i ≠ .distributor) : ConfinedBut Clearing SameClient t := by
  cases h with
  | subscribe k ord v => exact clearing_subscribe ord v
  | processUpdate k peer _ msg =>
    exact .of_confined (peer.confined_processUpdate msg fun _ _ _ _ _ ↦
      ⟨fun _ _ ↦ rfl, fun _ ↦ client_applyUpdate _⟩)
  | distribute ord u => exact absurd rfl hi

/-- The code of the distributor, with what it has in hand and not yet passed on to the OS. -/
inductive Hand : Code (Except Error Unit) → List InternalUpdate → Prop
  | waiting (ord : HashOrder) (u : InternalUpdate) : Hand (distribute ord u) [u]
  | calling (ord : HashOrder) (u : InternalUpdate) : Hand (distributing ord u) [u]
  | called {t : Code (Except Error Unit)} (h : Confined SameClient t) : Hand t []

variable {us : List InternalUpdate} {t t' : Code (Except Error Unit)}

theorem Hand.move {e : Option (LockEvent Lock)} (h : Hand t us) (hmove : Move t s e t' s') :
    (SameClient s s' ∧ Hand t' us) ∨ ∃ u, us = [u] ∧ Hand t' [] ∧ s'.chan = s.chan ∧
      s'.world.client = (s.world.client.call (clientCall u)).2 := by
  cases h with
  | waiting ord u =>
    cases hmove
    exact .inl ⟨rfl, .calling ord u⟩
  | calling ord u =>
    cases hmove
    exact .inr ⟨u, rfl, .called (confined_notifySubscribers (fun _ _ _ ↦ rfl) ord u), rfl, rfl⟩
  | called h =>
    obtain ⟨hsame, ht⟩ := h.move hmove
    exact .inl ⟨hsame, .called ht⟩

theorem Hand.nil_of_ret {r : Except Error Unit} (h : Hand (.ret r) us) : us = [] := by
  generalize ht : (.ret r : Code (Except Error Unit)) = t at h
  cases h with
  | waiting => cases ht
  | calling => cases ht
  | called => rfl

theorem route_of_distributing {ord ord' : HashOrder} {u u' : InternalUpdate}
    (h : distributing ord u = distributing ord' u') : u.route = u'.route := by
  have hact := (Task.act.inj h).1
  have hcalls : [clientCall u] = [clientCall u'] :=
    congrArg (fun f : World → World ↦ (f (Sample.node false).world).client.calls) hact
  have hcall := List.singleton_inj.mp hcalls
  obtain ⟨action, v, dest, nh, source⟩ := u
  obtain ⟨action', v', dest', nh', source'⟩ := u'
  cases action <;> cases action' <;> cases hcall <;> rfl

theorem not_confined_distributing {ord : HashOrder} {u : InternalUpdate} :
    ¬ Confined SameClient (distributing ord u) := by
  intro h
  have hcalls : [clientCall u] = [] :=
    congrArg Client.calls (h.1 (Sample.node false))
  cases hcalls

theorem Hand.route {ord : HashOrder} {u : InternalUpdate} (h : Hand t us)
    (ht : t = distribute ord u ∨ t = distributing ord u) : ∃ u' ∈ us, u'.route = u.route := by
  cases h with
  | waiting ord' u' =>
    rcases ht with ht | ht
    · exact ⟨u', List.mem_cons_self, route_of_distributing (Task.lock.inj ht).2.2⟩
    · cases ht
  | calling ord' u' =>
    rcases ht with ht | ht
    · cases ht
    · exact ⟨u', List.mem_cons_self, route_of_distributing ht⟩
  | called h =>
    rcases ht with rfl | rfl
    · exact absurd h not_confined_distributing
    · exact absurd h not_confined_distributing

section Backing

variable {first : Set Route}

def pendingRoutes (us : List InternalUpdate) (s : Node) : Set Route :=
  replay s.world.client.routes ((us ++ s.chan.queue).map InternalUpdate.toChange)

/-- The routes of the VNI that the updates lead to are installed once the OS has caught up. -/
def Backed (vni : Vni) (first : Set Route) (us : List InternalUpdate) (s : Node) : Prop :=
  ∀ r : Route, r.1 = vni → r ∈ replay first (s.chan.history.map InternalUpdate.toChange) →
    r ∈ pendingRoutes us s

theorem Backed.push {u : InternalUpdate} (h : Backed vni first us s) (hclient : SameClient s s')
    (hchan : s'.chan = s.chan.push u) : Backed vni first us s' := by
  intro r hr hmem
  rw [hchan, Channel.history_push, List.map_append, replay_append] at hmem
  rw [pendingRoutes, hchan, Channel.queue_push, ← List.append_assoc, List.map_append, replay_append,
    hclient]
  exact Change.mem_apply_mono (h r hr) hmem

theorem Backed.of_same (h : Backed vni first us s) (hclient : SameClient s s')
    (hchan : s'.chan = s.chan) : Backed vni first us s' := by
  rw [Backed, pendingRoutes, hclient, hchan]
  exact h

theorem Backed.move {e : Option (LockEvent Lock)} (h : Backed vni first us s)
    (hclient : SameClient s s') (hmove : Move t s e t' s') : Backed vni first us s' := by
  rcases hmove.chan with hchan | ⟨u, hchan⟩
  · exact h.of_same hclient hchan
  · exact h.push hclient hchan

theorem Backed.call {u : InternalUpdate} (h : Backed vni first [u] s) (hchan : s'.chan = s.chan)
    (hclient : s'.world.client = (s.world.client.call (clientCall u)).2) :
    Backed vni first [] s' := by
  intro r hr hmem
  rw [hchan] at hmem
  rw [pendingRoutes, hchan, hclient, Client.routes_call, apply_clientCall]
  exact h r hr hmem

theorem Backed.receive {u : InternalUpdate} {ch : Channel InternalUpdate}
    (h : Backed vni first [] s) (hrecv : s.chan.recv = some (u, ch)) :
    Backed vni first [u] { s with chan := ch } := by
  intro r hr hmem
  rw [Channel.history_recv hrecv] at hmem
  have hpending := h r hr hmem
  rwa [pendingRoutes, Channel.queue_of_recv hrecv] at hpending

theorem Backed.clear (h : Backed vni first us s) {v : Vni}
    (hspared : v = vni → ∀ r : Route, r.1 = vni → r ∈ s.world.client.routes →
      ∃ u ∈ us ++ s.chan.queue, u.route = r) :
    Backed vni first us { s with world := { s.world with
      client := (s.world.client.call (.clearRoutesForVni v)).2 } } := by
  intro r hr hmem
  have hpending := h r hr hmem
  rw [pendingRoutes] at hpending ⊢
  simp only [Client.routes_call, ClientCall.apply]
  by_cases hnamed : ∃ u ∈ us ++ s.chan.queue, u.route = r
  · obtain ⟨u, hu, rfl⟩ := hnamed
    have hsubject : u.toChange.subject = u.route := subject_changeOf ..
    exact (mem_replay_of_mentioned ⟨_, List.mem_map_of_mem hu, hsubject⟩).mp hpending
  · have hother : ∀ c ∈ (us ++ s.chan.queue).map InternalUpdate.toChange, c.subject ≠ r := by
      intro c hc heq
      obtain ⟨u, hu, rfl⟩ := List.mem_map.mp hc
      exact hnamed ⟨u, hu, (subject_changeOf ..).symm.trans heq⟩
    rw [mem_replay_of_not_mentioned hother] at hpending ⊢
    refine ⟨hpending, fun hv ↦ hnamed (hspared (hv.symm.trans hr) r hr hpending)⟩

end Backing

variable {first : Set Route} {c c' : Tasks (Actor κ)}

structure Sound (vni : Vni) (first : Set Route) (c : Tasks (Actor κ)) : Prop where
  table : (tableMonitor first).Sound c
  codes : ∀ i, i ≠ .distributor → ConfinedBut Clearing SameClient (c.code i)
  backed : ∃ us, Hand (c.code .distributor) us ∧ Backed vni first us c.shared

theorem Begins.sound (h : Begins vni c) :
    Sound vni c.shared.world.mb.routeTable.present c where
  table := h.toUnused.sound (·.routeTable)
  codes i _ := by
    obtain ⟨r, hr⟩ := h.idle i
    rw [hr]
    trivial
  backed := by
    obtain ⟨r, hr⟩ := h.idle .distributor
    refine ⟨[], by rw [hr]; exact .called trivial, fun r hvni hmem ↦ ?_⟩
    rw [h.history] at hmem
    exact absurd hmem (h.unlearned r hvni)

variable [DecidableEq κ]

theorem Sound.step (h : Sound vni first c) (hstep : Pool.Step Work c c')
    (hspares : Spares vni c c') : Sound vni first c' := by
  refine ⟨h.table.step (fun _ _ _ ↦ Work.follows) hstep, fun i hi ↦ ?_, ?_⟩
  · rcases hstep.code i with heq | ⟨e, hmove⟩ | ⟨o, -, hstart⟩
    · rw [heq]
      exact h.codes i hi
    · exact ((h.codes i hi).move hmove).2
    · exact hstart.clearing hi
  obtain ⟨us, hhand, hbacked⟩ := h.backed
  cases hstep with
  | move i e t s _ hmove =>
    by_cases hi : i = .distributor
    · subst hi
      rw [Pool.code_set, Function.update_self]
      rcases hhand.move hmove with ⟨hsame, ht⟩ | ⟨u, rfl, ht, hchan, hclient⟩
      · exact ⟨us, ht, hbacked.move hsame hmove⟩
      · exact ⟨[], ht, hbacked.call hchan hclient⟩
    · rw [Pool.code_set, Function.update_of_ne (Ne.symm hi)]
      refine ⟨us, hhand, ?_⟩
      rcases ((h.codes i hi).move hmove).1 with hsame | ⟨f, k, -, hfree, hs⟩
      · exact hbacked.move hsame hmove
      · cases hfree with
        | clear v =>
          rw [Pool.shared_set, hs]
          refine hbacked.clear fun hv r hr hmem ↦ ?_
          subst hv
          have hclears : Clears v c.shared (c.set i ⟨heldAfter e (c.held i), t⟩ s).shared := by
            rw [Pool.shared_set, hs]
            rfl
          obtain ⟨u, hpending | ⟨ord, hcode⟩, hroute⟩ := hspares hclears r hr hmem
          · exact ⟨u, List.mem_append_right us hpending, hroute⟩
          · obtain ⟨u', hu', hroute'⟩ := hhand.route hcode
            exact ⟨u', List.mem_append_left _ hu', hroute'.trans hroute⟩
  | start i t hidle hstart =>
    have hi : i ≠ .distributor := by
      rintro rfl
      cases hstart
    rw [Pool.code_set, Function.update_of_ne hi.symm]
    exact ⟨us, hhand, hbacked⟩
  | receive i u ch t hidle hrecv hstart =>
    cases hstart with
    | distribute ord u =>
      obtain ⟨r, hr⟩ := hidle
      rw [hr] at hhand
      obtain rfl := hhand.nil_of_ret
      rw [Pool.code_set, Function.update_self]
      exact ⟨[u], .waiting ord u, hbacked.receive hrecv⟩

omit [DecidableEq κ] in
theorem Sound.installed (h : Sound vni first c) (hsettled : Settled c) : Installed vni c.shared := by
  intro r hr hhas
  obtain ⟨us, hhand, hbacked⟩ := h.backed
  obtain ⟨a, ha⟩ := hsettled.distributed
  rw [ha] at hhand
  obtain rfl := hhand.nil_of_ret
  have hgood : (learned c.shared).logged first = c.shared.world.mb.routeTable.present :=
    (h.table.good hsettled.unguarded).2
  have hlogged : r ∈ (learned c.shared).logged first := by
    rw [hgood]
    exact hhas
  have hpending := hbacked r hr hlogged
  rwa [pendingRoutes, hsettled.drained] at hpending

/-- As long as every route that a clearing takes out has an update pending, a first
subscription ends with all learned routes installed. -/
theorem installed_of_spares (hbegins : Begins vni c)
    (hrun : Run (fun d d' ↦ Pool.Step Work d d' ∧ Spares vni d d') c c') (hsettled : Settled c') :
    Installed vni c'.shared := by
  have hsound := hrun.invariant hbegins.sound fun _ _ h hstep ↦ h.step hstep.1 hstep.2
  exact hsound.installed hsettled

def server : Peer := Sample.peer 1 .outgoing

def connectedNode : Node :=
  let s := Sample.node false
  { s with world := { s.world with
      mb := { s.world.mb with peers := s.world.mb.peers.insert server.remoteAddr server }
      cell := fun _ ↦ { PeerCell.new with state := .established } } }

def askedNode : Node :=
  notified (.subscribe ⟨100⟩) (withSubscriptions connectedNode (insert 100)) server

def withClient (call : ClientCall) (s : Node) : Node :=
  { s with world := { s.world with client := (s.world.client.call call).2 } }

def answered (s : Node) : Node := (exec [] (server.processUpdate (Sample.update .add)) s).shared

def reply : InternalUpdate :=
  ⟨.add, 100, Sample.destination, Sample.nextHop, some server.remoteAddr⟩

theorem peerList_connected (ord : HashOrder) :
    peerList ord connectedNode.world.mb.peers = [server] := by
  have hkeys : connectedNode.world.mb.peers.keys = {server.remoteAddr} := rfl
  rw [peerList, hkeys, HashOrder.list_singleton]
  rfl

theorem distributed_reply (ord : HashOrder) {s : Node} (h : s.world.mb.subscribers = ∅) :
    distributed reply s ord = withClient (clientCall reply) s := by
  have hvni : reply.vni = 100 := rfl
  have hnone : peersToNotify ord 100 s.world.mb = [] := by simp [peersToNotify, h]
  rw [distributed, hvni, hnone]
  rfl

theorem begins_connected : Begins 100 (Sample.tasks (Actor Unit) connectedNode) where
  toUnused := Sample.unused_tasks rfl rfl
  client := rfl
  unsubscribed := by decide
  unlearned r _ := by
    simp [Sample.tasks, connectedNode, Sample.node, MetalBondState.new, RouteTable.Has]
  uninstalled r _ := by simp [Sample.tasks, connectedNode, Sample.node, Client.routes]

def KeepsEmpty (s s' : Node) : Prop :=
  s.world.client.routes = ∅ → s'.world.client.routes = ∅

instance : Std.Refl KeepsEmpty := ⟨fun _ h ↦ h⟩

theorem run_spares_of_empty (hempty : c.shared.world.client.routes = ∅)
    (hrun : Run (fun d d' ↦ Pool.Step Work d d' ∧ KeepsEmpty d.shared d'.shared) c c') :
    Run (fun d d' ↦ Pool.Step Work d d' ∧ Spares vni d d') c c' := by
  have hboth : Run (fun d d' ↦ Pool.Step Work d d' ∧ Spares vni d d') c c' ∧
      c'.shared.world.client.routes = ∅ := by
    induction hrun with
    | refl => exact ⟨.refl, hempty⟩
    | tail _ hstep ih =>
      refine ⟨ih.1.snoc ⟨hstep.1, fun _ r _ hr ↦ ?_⟩, hstep.2 ih.2⟩
      rw [ih.2] at hr
      exact absurd hr (Set.notMem_empty r)
  exact hboth.1

theorem not_clears_of_same (h : SameClient s s') : ¬ Clears vni s s' := by
  intro hclears
  rw [Clears, h] at hclears
  exact List.cons_ne_nil _ [] (List.self_eq_append_right.mp hclears)

instance : Std.Refl fun s s' : Node ↦ ¬ Clears vni s s' := ⟨fun _ ↦ not_clears_of_same rfl⟩

theorem keepsEmpty_subscribe (ord : HashOrder) (v : Vni) : Confined KeepsEmpty (subscribe ord v) := by
  refine confined_subscribe ord (fun s v hempty ↦ ?_) (fun _ _ h ↦ h) (fun _ _ _ h ↦ h) v
  simp [Client.routes_call, ClientCall.apply, hempty]

/-- The server answers after `subscribe` has returned. -/
theorem installed_of_spares_sample : ∃ c : Tasks (Actor Unit), Settled c ∧
    c.shared.world.mb.routeTable.Has Sample.route ∧ Installed 100 c.shared := by
  let c := Sample.tasks (Actor Unit) connectedNode
  let s₁ := withClient (.clearRoutesForVni 100) askedNode
  let c₁ := c.set (.subscriber ()) ⟨[], .ret (.ok ())⟩ s₁
  have hsubscribe : exec [] (subscribe default 100) c.shared = .done (.ok ()) [] s₁ := by
    have hnew : 100 ∉ c.shared.world.mb.mySubscriptions := by decide
    have hpeers : peerList default (withSubscriptions c.shared (insert 100)).world.mb.peers =
        [server] := peerList_connected default
    rw [exec_subscribe_new default rfl hnew, resubscribed, hpeers]
    rfl
  have hrun₁ : Run (fun d d' ↦ Pool.Step Work d d' ∧ Spares 100 d d') c c₁ :=
    run_spares_of_empty rfl (Pool.run_start (fun _ ↦ rfl) (Sample.idle_tasks ..)
      (.subscribe () default 100) (keepsEmpty_subscribe default 100) hsubscribe)
  have hheld₁ : ∀ i, c₁.held i = [] := Pool.unguarded_set (fun _ ↦ rfl) _ _ _
  let c₂ := c₁.set (.handler ()) ⟨[], .ret (.ok ())⟩ (answered s₁)
  have hquiet : Confined (fun s s' : Node ↦ ¬ Clears 100 s s')
      (server.processUpdate (Sample.update .add)) :=
    server.confined_processUpdate _ fun _ _ _ _ _ ↦ ⟨fun _ _ ↦ not_clears_of_same rfl,
      fun _ ↦ not_clears_of_same (client_applyUpdate _)⟩
  have hrun₂ : Run (fun d d' ↦ Pool.Step Work d d' ∧ Spares 100 d d') c₁ c₂ :=
    Run.mono (Pool.run_start hheld₁ ⟨.ok (), rfl⟩
      (.processUpdate () server rfl (Sample.update .add)) hquiet rfl)
      fun _ _ h ↦ ⟨h.1, fun hclears ↦ absurd hclears h.2⟩
  have hheld₂ : ∀ i, c₂.held i = [] := Pool.unguarded_set hheld₁ _ _ _
  let s₃ := withClient (clientCall reply) { answered s₁ with chan := ⟨[reply], [], false⟩ }
  let c₃ := c₂.set .distributor ⟨[], .ret (.ok ())⟩ s₃
  have hdistribute : exec [] (distribute default reply)
      { c₂.shared with chan := ⟨[reply], [], false⟩ } = .done (.ok ()) [] s₃ := by
    rw [exec_distribute_done, distributed_reply]
    · rfl
    · rfl
  have hcalls : Confined (fun s s' : Node ↦ ¬ Clears 100 s s') (distribute default reply) := by
    refine confined_distribute (R := fun s s' ↦ ¬ Clears 100 s s') (fun s hclears ↦ ?_)
      (fun _ _ _ ↦ not_clears_of_same rfl) default
    cases List.singleton_inj.mp (List.append_cancel_left hclears)
  have hrun₃ : Run (fun d d' ↦ Pool.Step Work d d' ∧ Spares 100 d d') c₂ c₃ :=
    Run.mono (Pool.run_receive hheld₂ ⟨.ok (), rfl⟩ rfl (.distribute default reply)
      (not_clears_of_same rfl) hcalls hdistribute) fun _ _ h ↦ ⟨h.1, fun hclears ↦ absurd hclears h.2⟩
  have hheld₃ : ∀ i, c₃.held i = [] := Pool.unguarded_set hheld₂ _ _ _
  have hsettled : Settled c₃ :=
    ⟨fun _ ↦ rfl, rfl, ⟨.ok (), rfl⟩, fun i ↦ by rw [hheld₃]; exact List.not_mem_nil⟩
  exact ⟨c₃, hsettled, by decide,
    installed_of_spares begins_connected (hrun₁.trans (hrun₂.trans hrun₃)) hsettled⟩

/-- The server answers before `subscribe` has cleared the routes of the OS. -/
theorem fast_reply_wiped : ¬ ∀ c c' : Tasks (Actor Unit), Begins 100 c →
    Run (Pool.Step Work) c c' → Settled c' → Installed 100 c'.shared := by
  intro hevery
  have hrefl : Std.Refl fun _ _ : Node ↦ True := ⟨fun _ ↦ trivial⟩
  let c := Sample.tasks (Actor Unit) connectedNode
  let subscribing := withSubscriptions connectedNode (insert 100)
  let c₁ := c.set (.subscriber ()) ⟨[], announceSubscription 100 (·.sendSubscribe 100)
    (peerList default connectedNode.world.mb.peers)⟩ subscribing
  have hrun₁ : Run (Pool.Step Work) c c₁ :=
    (run_subscribing (fun _ ↦ rfl) (Sample.idle_tasks ..) (.subscribe () default 100) rfl
      (by decide)).mono fun _ _ h ↦ h.1
  have hheld₁ : ∀ i, c₁.held i = [] := Pool.unguarded_set (fun _ ↦ rfl) _ _ _
  let clearing : Code (Except Error Unit) := do
    acquire .metalbondState .read
    let ok ← callClient (.clearRoutesForVni 100)
    release .metalbondState .read
    return if ok then .ok () else .error .client
  let c₂ := c₁.set (.subscriber ()) ⟨[], clearing⟩ askedNode
  have hsends : exec (c₁.held (.subscriber ())) (notifyEstablished (·.sendMessage (.subscribe ⟨100⟩))
      (peerList default connectedNode.world.mb.peers)) c₁.shared = .done () [] askedNode := by
    rw [hheld₁, exec_notifyEstablished, peerList_connected]
    rfl
  have hrun₂ : Run (Pool.Step Work) c₁ c₂ :=
    Pool.run_part (g := fun _ ↦ clearing) (b := ()) (fun j _ ↦ hheld₁ j) rfl hsends
  have hheld₂ : ∀ i, c₂.held i = [] := Pool.unguarded_set hheld₁ _ _ _
  let c₃ := c₂.set (.handler ()) ⟨[], .ret (.ok ())⟩ (answered askedNode)
  have hrun₃ : Run (Pool.Step Work) c₂ c₃ :=
    Pool.run_whole hheld₂ ⟨.ok (), rfl⟩ (.processUpdate () server rfl (Sample.update .add)) rfl
  have hheld₃ : ∀ i, c₃.held i = [] := Pool.unguarded_set hheld₂ _ _ _
  let s₄ := withClient (clientCall reply) { answered askedNode with chan := ⟨[reply], [], false⟩ }
  let c₄ := c₃.set .distributor ⟨[], .ret (.ok ())⟩ s₄
  have hdistribute : exec [] (distribute default reply)
      { c₃.shared with chan := ⟨[reply], [], false⟩ } = .done (.ok ()) [] s₄ := by
    rw [exec_distribute_done, distributed_reply]
    · rfl
    · rfl
  have hrun₄ : Run (Pool.Step Work) c₃ c₄ :=
    Run.mono (Pool.run_receive hheld₃ ⟨.ok (), rfl⟩ rfl (.distribute default reply) trivial
      (confined_true _) hdistribute) fun _ _ h ↦ h.1
  have hheld₄ : ∀ i, c₄.held i = [] := Pool.unguarded_set hheld₃ _ _ _
  let c₅ := c₄.set (.subscriber ()) ⟨[], .ret (.ok ())⟩ (withClient (.clearRoutesForVni 100) s₄)
  have hclear : exec (c₄.held (.subscriber ())) clearing c₄.shared =
      .done (.ok ()) [] (withClient (.clearRoutesForVni 100) s₄) := by
    rw [hheld₄]
    rfl
  have hrun₅ : Run (Pool.Step Work) c₄ c₅ := Pool.run_rest (fun j _ ↦ hheld₄ j) hclear
  have hheld₅ : ∀ i, c₅.held i = [] := Pool.unguarded_set hheld₄ _ _ _
  have hsettled : Settled c₅ :=
    ⟨fun _ ↦ rfl, rfl, ⟨.ok (), rfl⟩, fun i ↦ by rw [hheld₅]; exact List.not_mem_nil⟩
  have hrun := hrun₁.trans (hrun₂.trans (hrun₃.trans (hrun₄.trans hrun₅)))
  have hinstalled := hevery c c₅ begins_connected hrun hsettled Sample.route rfl (by decide)
  exact hinstalled.2 rfl

end MetalBond.FirstSubscription
