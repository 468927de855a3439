import MetalBond.AppendOnly
import MetalBond.Ledger

namespace MetalBond.Losses

open Async Task Collections HashMap Peer

inductive Actor (κ : Type)
  | distributor
  | caller (k : κ)
  | connection (k : κ)
  deriving DecidableEq

/-- `handle_peer` has returned: the receiver of the queue is dropped. -/
def dropReceiver (q : Peer) (w : World) : World :=
  w.modifyCell q.id fun c ↦ { c with tx := c.tx.close }

inductive Work {κ : Type} : Actor κ → Option InternalUpdate → Code (Except Error Unit) → Prop
  | distribute (ord : HashOrder) (u : InternalUpdate) :
    Work .distributor (some u) (distribute ord u)
  | subscribe (k : κ) (ord : HashOrder) (vni : Vni) : Work (.caller k) none (subscribe ord vni)
  | unsubscribe (k : κ) (ord : HashOrder) (vni : Vni) : Work (.caller k) none (unsubscribe ord vni)
  | announceRoute (k : κ) (vni : Vni) (dest : Destination) (nh : NextHop) :
    Work (.caller k) none (announceRoute vni dest nh)
  | withdrawRoute (k : κ) (vni : Vni) (dest : Destination) (nh : NextHop) :
    Work (.caller k) none (withdrawRoute vni dest nh)
  | addPeer (k : κ) (parse : String → Option SocketAddr) (addr : String) :
    Work (.caller k) none (addPeer parse addr)
  | removePeer (k : κ) (parse : String → Option SocketAddr) (ord : HashOrder) (addr : String) :
    Work (.caller k) none (removePeer parse ord addr)
  | startPeer (k : κ) (q : Peer) (ord : HashOrder) :
    Work (.connection k) none (do let _ ← q.startPeer ord; return .ok ())
  | selectRound (k : κ) (q : Peer) (ord : HashOrder) (r : Round) (t : Timers) :
    Work (.connection k) none (do let _ ← q.selectRound ord r t; return .ok ())
  | finish (k : κ) (q : Peer) :
    Work (.connection k) none (do modify (dropReceiver q); return .ok ())

def Down (p : Peer) (s : Node) : Prop :=
  (p.cellOf s).shutdownSignal = true ∨ (p.cellOf s).tx.closed = true

def Actor.Selector {κ : Type} : Actor κ → Prop
  | distributor | caller _ => True
  | connection _ => False

variable {κ : Type} {p : Peer}

/-- In this step the distributor, or a caller, has selected the established peer for a message. -/
def Selects (p : Peer) (c c' : Tasks (Actor κ)) (msg : GeneratedMessage) : Prop :=
  (p.cellOf c.shared).state = .established ∧ ∃ i k, i.Selector ∧
    c.code i = p.sendMessage msg >>= k ∧ c'.procs i ≠ c.procs i

/-- A state of the node, with an account of what the stream of the peer must hold: what it held
at first, and all that the peer was due since then. -/
structure Account (κ : Type) where
  tasks : Tasks (Actor κ)
  due : List GeneratedMessage
  /-- The connection has not been shut down so far. -/
  up : Prop

structure Step [DecidableEq κ] (p : Peer) (a a' : Account κ) : Prop where
  tasks : Pool.Step Work a.tasks a'.tasks
  due : (∃ msg, Selects p a.tasks a'.tasks msg ∧ a'.due = a.due ++ [msg]) ∨
    (∀ msg, ¬ Selects p a.tasks a'.tasks msg) ∧ a'.due = a.due
  up : a'.up ↔ a.up ∧ ¬ Down p a'.tasks.shared

structure Opens (p : Peer) (a : Account κ) : Prop where
  idle : ∀ i, a.tasks.Idle i
  due : a.due = (p.cellOf a.tasks.shared).tx.history
  up : a.up → ¬ Down p a.tasks.shared

/-- The step finds a free slot in the queue of the peer that it selects, or a connection that
is shut down. -/
def FindsRoom (p : Peer) (a a' : Account κ) : Prop :=
  ∀ msg, Selects p a.tasks a'.tasks msg →
    p.HasRoom a.tasks.shared ∨ Down p a.tasks.shared

/-- Unless its connection was shut down, the peer was sent all that it was due. -/
def NothingLost (p : Peer) (a : Account κ) : Prop :=
  a.up → a.due.Sublist (p.cellOf a.tasks.shared).tx.history

theorem appends_dropReceiver (q : Peer) (s : Node) :
    Appends p s { s with world := dropReceiver q s.world } :=
  appends_modifyCell q s fun _ ↦ rfl

theorem Work.appends {i : Actor κ} {o : Option InternalUpdate} {t : Code (Except Error Unit)}
    (h : Work i o t) : Confined (Appends p) t := by
  have hmono : ∀ {α : Type} {k : Code α}, Confined (Fills p) k → Confined (Appends p) k :=
    fun h ↦ h.mono fun _ _ ↦ Fills.appends
  cases h with
  | distribute ord u => exact hmono (fills_distribute ord u)
  | subscribe k ord vni => exact hmono (fills_subscribe ord vni)
  | unsubscribe k ord vni => exact hmono (fills_unsubscribe ord vni)
  | announceRoute k vni dest nh => exact hmono (fills_announceRoute vni dest nh)
  | withdrawRoute k vni dest nh => exact hmono (fills_withdrawRoute vni dest nh)
  | addPeer k parse addr => exact hmono (fills_addPeer parse addr)
  | removePeer k parse ord addr => exact hmono (fills_removePeer ord parse addr)
  | startPeer k q ord => exact .bind ((acts_appends q).composes.startPeer ord) fun _ ↦ .ret _
  | selectRound k q ord r t =>
    have htake : Confined (Appends p) (Task.modify q.takeOutgoing : Code Unit) :=
      .modify (history_takeOutgoing q)
    exact .bind ((acts_appends q).composes.selectRound ord htake r t) fun _ ↦ .ret _
  | finish k q => exact .bind (.modify fun s ↦ appends_dropReceiver q s) fun _ ↦ .ret _

def Orderly (p : Peer) (c : Tasks (Actor κ)) : Prop := ∀ i, Confined (Appends p) (c.code i)

section Steps

variable [DecidableEq κ] {c c' : Tasks (Actor κ)}

theorem Orderly.step (h : Orderly p c) (hstep : Pool.Step Work c c') :
    Orderly p c' ∧ Appends p c.shared c'.shared := by
  obtain ⟨happends, horderly⟩ := hstep.confined h (fun _ _ _ ↦ Work.appends)
    fun _ _ ↦ appends_of_history rfl
  exact ⟨horderly, happends⟩

theorem sendMessage_bind {α : Type} (p : Peer) (msg : GeneratedMessage)
    (k : Except Error Unit → Code α) : p.sendMessage msg >>= k =
      .act (fun w ↦ w.setCell p.id ((w.cell p.id).trySend msg).2)
        fun w ↦ k ((w.cell p.id).trySend msg).1 := rfl

theorem Selects.shared_eq {msg : GeneratedMessage} (hstep : Pool.Step Work c c')
    (h : Selects p c c' msg) : c'.shared = p.sent c.shared msg := by
  obtain ⟨-, i, k, -, hcode, hmoved⟩ := h
  have hsame : ∀ {j : Actor κ} {q : Proc Lock World InternalUpdate (Except Error Unit)} {s : Node},
      (c.set j q s).procs i ≠ c.procs i → i = j := by
    intro j q s hne
    by_contra hij
    exact hne (Function.update_of_ne hij ..)
  cases hstep with
  | move j e t s _ hmove =>
    obtain rfl := hsame hmoved
    rw [hcode, sendMessage_bind] at hmove
    cases hmove
    rfl
  | start j t hidle =>
    obtain rfl := hsame hmoved
    obtain ⟨a, ha⟩ := hidle
    rw [hcode, sendMessage_bind] at ha
    cases ha
  | receive j u ch t hidle =>
    obtain rfl := hsame hmoved
    obtain ⟨a, ha⟩ := hidle
    rw [hcode, sendMessage_bind] at ha
    cases ha

end Steps

theorem down_sent {s : Node} (msg : GeneratedMessage) : Down p (p.sent s msg) ↔ Down p s := by
  by_cases h : p.HasRoom s
  · obtain ⟨tx, hsend, htx⟩ := PeerCell.trySend_of_room h.connected h.room msg
    have hclosed : tx.closed = (p.cellOf s).tx.closed := by
      rw [htx, Channel.closed_push]
    rw [Down, sent, cellOf_withCell, hsend, hclosed]
    rfl
  · rw [sent_of_not_hasRoom h]

structure Faithful (p : Peer) (a : Account κ) : Prop where
  orderly : Orderly p a.tasks
  up : a.up → ¬ Down p a.tasks.shared
  lost : NothingLost p a

variable {a a' : Account κ}

theorem faithful_of_opens (h : Opens p a) : Faithful p a where
  orderly i := by
    obtain ⟨r, hr⟩ := h.idle i
    rw [hr]
    exact .ret r
  up := h.up
  lost _ := by
    rw [h.due]

variable [DecidableEq κ]

theorem Faithful.step (h : Faithful p a) (hstep : Step p a a') (hroom : FindsRoom p a a') :
    Faithful p a' := by
  obtain ⟨horderly, happends⟩ := h.orderly.step hstep.tasks
  refine ⟨horderly, fun hup ↦ (hstep.up.mp hup).2, fun hup ↦ ?_⟩
  have hbefore := (hstep.up.mp hup).1
  rcases hstep.due with ⟨msg, hselects, hdue⟩ | ⟨-, hdue⟩
  · have hfree := (hroom msg hselects).resolve_right (h.up hbefore)
    rw [hdue, hselects.shared_eq hstep.tasks, hfree.history_sent]
    exact (h.lost hbefore).append (.refl _)
  · rw [hdue]
    exact (h.lost hbefore).trans happends.sublist

/-- When every selection finds room, a peer whose connection stays up is sent all that it is
due. -/
theorem nothing_lost (hopens : Opens p a)
    (hrun : Run (fun a a' ↦ Step p a a' ∧ FindsRoom p a a') a a') : NothingLost p a' :=
  (hrun.invariant (faithful_of_opens hopens) fun _ _ h hstep ↦ h.step hstep.1 hstep.2).lost

theorem exists_entry {c : Tasks (Actor κ)} (a : Account κ) (hstep : Pool.Step Work a.tasks c) :
    ∃ a', Step p a a' ∧ a'.tasks = c ∧ (a'.up ↔ a.up ∧ ¬ Down p c.shared) ∧ a.due <+: a'.due := by
  by_cases hselects : ∃ msg, Selects p a.tasks c msg
  · obtain ⟨msg, hmsg⟩ := hselects
    exact ⟨⟨c, a.due ++ [msg], a.up ∧ ¬ Down p c.shared⟩, ⟨hstep, .inl ⟨msg, hmsg, rfl⟩, .rfl⟩, rfl,
      .rfl, List.prefix_append ..⟩
  · exact ⟨⟨c, a.due, a.up ∧ ¬ Down p c.shared⟩,
      ⟨hstep, .inr ⟨fun msg h ↦ hselects ⟨msg, h⟩, rfl⟩, .rfl⟩, rfl, .rfl, List.prefix_refl _⟩

theorem exists_account {c : Tasks (Actor κ)} (a : Account κ) (hup : a.up)
    (hdown : ¬ Down p a.tasks.shared)
    (hrun : Run (fun c c' ↦ Pool.Step Work c c' ∧ p.cellOf c'.shared = p.cellOf c.shared)
      a.tasks c) :
    ∃ a', Run (fun d d' ↦ Step p d d' ∧ p.cellOf d.tasks.shared = p.cellOf a.tasks.shared) a a' ∧
      a'.tasks = c ∧ p.cellOf c.shared = p.cellOf a.tasks.shared ∧ a'.up ∧ a.due <+: a'.due := by
  induction hrun with
  | refl => exact ⟨a, .refl, rfl, rfl, hup, List.prefix_refl _⟩
  | tail _ hstep ih =>
    obtain ⟨a₁, hrun₁, rfl, hcell₁, hup₁, hdue₁⟩ := ih
    obtain ⟨hstep, hcell⟩ := hstep
    obtain ⟨a₂, hstep₂, rfl, hup₂, hdue₂⟩ := exists_entry (p := p) a₁ hstep
    have hcell₂ := hcell.trans hcell₁
    have hstays : ¬ Down p a₂.tasks.shared := by
      rw [Down, hcell₂]
      exact hdown
    exact ⟨a₂, hrun₁.snoc ⟨hstep₂, hcell₁⟩, rfl, hcell₂, hup₂.mpr ⟨hup₁, hstays⟩,
      hdue₁.trans hdue₂⟩

theorem lost_of_full {msg : GeneratedMessage} (hstep : Step p a a') (hup : a'.up)
    (hselects : Selects p a.tasks a'.tasks msg) (hfull : ¬ p.HasRoom a.tasks.shared)
    (hdue : (p.cellOf a.tasks.shared).tx.history.length ≤ a.due.length) : ¬ NothingLost p a' := by
  intro hlost
  have hlength := (hlost hup).length_le
  rw [hselects.shared_eq hstep.tasks, sent_of_not_hasRoom hfull] at hlength
  rcases hstep.due with ⟨msg', -, hdue'⟩ | ⟨hnone, -⟩
  · rw [hdue', List.length_append, List.length_singleton] at hlength
    omega
  · exact hnone msg hselects

theorem exists_sends {c : Tasks (Actor κ)} {i : Actor κ} {msg : GeneratedMessage}
    {k : Except Error Unit → Code (Except Error Unit)} (hi : i.Selector)
    (hstate : (p.cellOf c.shared).state = .established) (hcode : c.code i = p.sendMessage msg >>= k) :
    ∃ c', Pool.Step Work c c' ∧ Selects p c c' msg := by
  have hmove : Task.Move (p.sendMessage msg >>= k) c.shared none
    (k ((p.cellOf c.shared).trySend msg).1) (p.sent c.shared msg) := .act ..
  rw [← hcode] at hmove
  refine ⟨_, .move i none _ _ trivial hmove, hstate, i, k, hi, hcode, fun hsame ↦ ?_⟩
  have hcode' := congrArg Proc.code hsame
  rw [← Pool.code, Pool.code_set, Function.update_self, ← Pool.code, hcode, sendMessage_bind] at hcode'
  exact Task.ne_act _ (fun w ↦ k ((w.cell p.id).trySend msg).1) c.shared.world hcode'

def loaded (tx : Mailbox GeneratedMessage peerTxBufferSize) : Node :=
  let s := Sample.node true
  { world := { s.world with
      mb := { s.world.mb with
        peers := s.world.mb.peers.insert (Sample.addr 1) (Sample.peer 1 .incoming)
        subscribers := s.world.mb.subscribers.insert 100 {Sample.addr 1} }
      cell := fun _ ↦ ⟨false, .established, {100}, tx, false⟩ }
    chan := ⟨[], [⟨.add, 100, Sample.destination, Sample.nextHop, none⟩], false⟩ }

def announcement : GeneratedMessage := updateMessage .add 100 Sample.destination Sample.nextHop

theorem exists_selecting (tx : Mailbox GeneratedMessage peerTxBufferSize) :
    let p := Sample.peer 1 .incoming
    ∃ (c : Tasks (Actor Unit)) (k : Except Error Unit → Code (Except Error Unit)),
      Run (fun c c' ↦ Pool.Step Work c c' ∧ p.cellOf c'.shared = p.cellOf c.shared)
        (Sample.tasks (Actor Unit) (loaded tx)) c ∧
      c.code .distributor = p.sendMessage announcement >>= k := by
  intro p
  let u : InternalUpdate := ⟨.add, 100, Sample.destination, Sample.nextHop, none⟩
  let c := Sample.tasks (Actor Unit) (loaded tx)
  let R : Node → Node → Prop := fun s s' ↦ p.cellOf s' = p.cellOf s
  have hR : Std.Refl R := ⟨fun _ ↦ rfl⟩
  let s₁ : Node := { loaded tx with chan := ⟨[u], [], false⟩ }
  let s₂ : Node := { s₁ with
    world := { s₁.world with client := (s₁.world.client.call (clientCall u)).2 } }
  have hothers : ∀ j, j ≠ Actor.distributor → c.held j = [] := fun j _ ↦ rfl
  have hstart : Pool.Step Work c (c.set .distributor ⟨[], distribute default u⟩ s₁) :=
    Pool.Step.receive Actor.distributor u _ _ (Sample.idle_tasks ..) rfl (Work.distribute default u)
  -- first the peers are listed
  let list : Code (List Peer) := do
    acquire .metalbondState .read
    let _ ← callClient (clientCall u)
    gets fun w ↦ peersToNotify default u.vni w.mb
  let rest : List Peer → Code (Except Error Unit) := fun peers ↦ do
    forwardAll u peers
    release .metalbondState .read
    return .ok ()
  have hpeers : peersToNotify default 100 s₂.world.mb = [p] :=
    peersToNotify_singleton default rfl rfl
  have hlist : exec [] list s₁ = .done [p] [(.metalbondState, .read)] s₂ := by
    rw [← hpeers]
    rfl
  have hlists : Confined R list :=
    .bind (.acquire ..) fun _ ↦ .bind (.update fun _ ↦ rfl) fun _ ↦ .gets _
  -- then loop prevention lets the update pass
  let test : Code Bool := do
    let source ← sourceIsServer none
    let target ← reading (.isRemoteServer p.id) fun w ↦ (w.cell p.id).isRemoteServer
    return source && target
  let pass : Bool → Code (Except Error Unit) := fun both ↦ do
    (do
      (if both then return () else do let _ ← p.sendMessage announcement; return () : Code Unit)
      return ())
    release .metalbondState .read
    return .ok ()
  have htest : exec [(.metalbondState, .read)] test s₂ =
      .done false [(.metalbondState, .read)] s₂ := rfl
  have htests : Confined R test := .bind (.gets _) fun _ ↦ .bind (.reading ..) fun _ ↦ .ret _
  have hrest : rest [p] = test >>= pass := by
    have hown : ¬ (some p.remoteAddr = u.sourcePeer ∧ u.nextHop.hopType = .nat) := fun h ↦ by cases h.1
    simp only [rest, forwardAll, forward, hown, if_false]
    rfl
  let Keeping : Tasks (Actor Unit) → Tasks (Actor Unit) → Prop :=
    fun c c' ↦ Pool.Step Work c c' ∧ R c.shared c'.shared
  have hrun₁ : Run Keeping (c.set .distributor ⟨[], list >>= rest⟩ s₁)
      (c.set .distributor ⟨[(.metalbondState, .read)], rest [p]⟩ s₂) :=
    Pool.run_bind_within hothers hlists hlist
  have hrun₂ : Run Keeping (c.set .distributor ⟨[(.metalbondState, .read)], test >>= pass⟩ s₂)
      (c.set .distributor ⟨[(.metalbondState, .read)], pass false⟩ s₂) :=
    Pool.run_bind_within hothers htests htest
  rw [← hrest] at hrun₂
  exact ⟨_, fun _ ↦ do release .metalbondState .read; return .ok (),
    .cons ⟨hstart, rfl⟩ (hrun₁.trans hrun₂), rfl⟩

def keepalives (n : ℕ) (h : n ≤ peerTxBufferSize) : Mailbox GeneratedMessage peerTxBufferSize :=
  ⟨⟨[], List.replicate n .keepalive, false⟩, by simpa using h⟩

theorem exists_selection (n : ℕ) (h : n ≤ peerTxBufferSize) :
    let p := Sample.peer 1 .incoming
    let cell := p.cellOf (loaded (keepalives n h))
    ∃ a₀ a a' : Account Unit, Opens p a₀ ∧ a₀.due = cell.tx.history ∧
      Run (fun d d' ↦ Step p d d' ∧ p.cellOf d.tasks.shared = cell) a₀ a ∧
      p.cellOf a.tasks.shared = cell ∧ a₀.due <+: a.due ∧
      Step p a a' ∧ Selects p a.tasks a'.tasks announcement ∧ a'.up := by
  intro p cell
  obtain ⟨c, k, hrun, hcode⟩ := exists_selecting (keepalives n h)
  let a₀ : Account Unit :=
    ⟨Sample.tasks (Actor Unit) (loaded (keepalives n h)), cell.tx.history, True⟩
  have hdown : ¬ Down p (loaded (keepalives n h)) := by
    rintro (h | h) <;> cases h
  obtain ⟨a, hrun', rfl, hcell, hup, hdue⟩ := exists_account a₀ trivial hdown hrun
  have hstate : (p.cellOf a.tasks.shared).state = .established := by
    rw [hcell]
    rfl
  have hselector : Actor.Selector (Actor.distributor : Actor Unit) := trivial
  obtain ⟨c', hstep, hselects⟩ := exists_sends hselector hstate hcode
  obtain ⟨a', hstep', rfl, hup', -⟩ := exists_entry (p := p) a hstep
  have hstays : ¬ Down p a'.tasks.shared := by
    rw [hselects.shared_eq hstep, down_sent, Down, hcell]
    exact hdown
  exact ⟨a₀, a, a', ⟨Sample.idle_tasks _, rfl, fun _ ↦ hdown⟩, rfl, hrun', hcell, hdue, hstep',
    hselects, hup'.mpr ⟨hup, hstays⟩⟩

theorem nothing_lost_sample : ∃ a : Account Unit, a.up ∧ a.due ≠ [] ∧
    NothingLost (Sample.peer 1 .incoming) a := by
  let p := Sample.peer 1 .incoming
  obtain ⟨a₀, a, a', hopens, -, hrun, hcell, -, hstep, hselects, hup⟩ :=
    exists_selection 0 (Nat.zero_le _)
  have hroom : ∀ b : Account Unit,
      p.cellOf b.tasks.shared = p.cellOf (loaded (keepalives 0 (Nat.zero_le _))) →
        p.HasRoom b.tasks.shared := by
    intro b hb
    refine ⟨?_, ?_⟩ <;> rw [hb]
    · rfl
    · decide
  have hrun' : Run (fun d d' ↦ Step p d d' ∧ FindsRoom p d d') a₀ a' :=
    (hrun.mono fun d d' h ↦ ⟨h.1, fun _ _ ↦ .inl (hroom d h.2)⟩).snoc
      ⟨hstep, fun _ _ ↦ .inl (hroom a hcell)⟩
  refine ⟨a', hup, ?_, nothing_lost hopens hrun'⟩
  rcases hstep.due with ⟨msg, -, hdue⟩ | ⟨hnone, -⟩
  · rw [hdue]
    exact List.concat_ne_nil _ _
  · exact absurd hselects (hnone _)

/-- The queue of the subscriber is full: the update is dropped, and the connection stays up. -/
theorem full_queue_loses_update : ¬ ∀ a a' : Account Unit, Opens (Sample.peer 1 .incoming) a →
    Run (Step (Sample.peer 1 .incoming)) a a' → NothingLost (Sample.peer 1 .incoming) a' := by
  intro hevery
  obtain ⟨a₀, a, a', hopens, hdue₀, hrun, hcell, hdue, hstep, hselects, hup⟩ :=
    exists_selection peerTxBufferSize le_rfl
  have hfull : ¬ (Sample.peer 1 .incoming).HasRoom a.tasks.shared := by
    intro hroom
    have hqueue : ((Sample.peer 1 .incoming).cellOf
        (loaded (keepalives peerTxBufferSize le_rfl))).tx.queue.length = peerTxBufferSize :=
      List.length_replicate
    have hlength := hroom.room
    rw [hcell, hqueue] at hlength
    exact lt_irrefl _ hlength
  have hlength : ((Sample.peer 1 .incoming).cellOf a.tasks.shared).tx.history.length ≤
      a.due.length := by
    rw [hcell, ← hdue₀]
    exact hdue.length_le
  have hsteps := (hrun.mono fun _ _ h ↦ h.1).snoc hstep
  exact lost_of_full hstep hup hselects hfull hlength (hevery a₀ a' hopens hsteps)

end MetalBond.Losses
