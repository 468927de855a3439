import MetalBond.AppendOnly
import MetalBond.Deliveries
import MetalBond.TableExec

namespace MetalBond.LateInstalls

open Async Task Collections HashMap Peer

inductive Actor (κ : Type)
  | distributor
  | subscriber (k : κ)
  | unsubscriber (k : κ) (vni : Vni)
  | handler (k : κ)
  | announcer (k : κ)
  deriving DecidableEq

variable {κ : Type}

/-- A client at work. It connects to its peers. -/
inductive Work : Actor κ → Option InternalUpdate → Code (Except Error Unit) → Prop
  | subscribe (k : κ) (ord : HashOrder) (vni : Vni) : Work (.subscriber k) none (subscribe ord vni)
  | unsubscribe (k : κ) (ord : HashOrder) (vni : Vni) :
    Work (.unsubscriber k vni) none (unsubscribe ord vni)
  | processUpdate (k : κ) (peer : Peer) (outgoing : peer.direction = .outgoing) (msg : Pb.Update) :
    Work (.handler k) none (peer.processUpdate msg)
  | announceRoute (k : κ) (vni : Vni) (dest : Destination) (nh : NextHop) :
    Work (.announcer k) none (announceRoute vni dest nh)
  | withdrawRoute (k : κ) (vni : Vni) (dest : Destination) (nh : NextHop) :
    Work (.announcer k) none (withdrawRoute vni dest nh)
  | distribute (ord : HashOrder) (u : InternalUpdate) : Work .distributor (some u) (distribute ord u)

def Learned (vni : Vni) (u : InternalUpdate) : Prop :=
  u.action = .add ∧ u.vni = vni ∧ u.sourcePeer ≠ none

def Queues (vni : Vni) (s s' : Node) : Prop :=
  ∃ u, Learned vni u ∧ s'.chan.history = s.chan.history ++ [u]

def Installs (vni : Vni) (s s' : Node) : Prop :=
  ∃ dest nh, s'.world.client.calls = s.world.client.calls ++ [.addRoute vni dest nh]

def FromPeer (s : Node) : Prop := ∃ u, s.chan.taken.getLast? = some u ∧ u.sourcePeer ≠ none

def Unsubscribed (vni : Vni) (s : Node) : Prop := vni ∉ s.world.mb.mySubscriptions

def Returns (c c' : Tasks (Actor κ)) (vni : Vni) : Prop :=
  ∃ k, ¬ c.Idle (.unsubscriber k vni) ∧ c'.code (.unsubscriber k vni) = .ret (.ok ())

/-- A node, and the VNIs that were unsubscribed from and not subscribed to again. -/
structure Watch (κ : Type) where
  tasks : Tasks (Actor κ)
  off : Set Vni

/-- A VNI is off from the return of `unsubscribe` on, for as long as it is unsubscribed. -/
structure Step [DecidableEq κ] (a a' : Watch κ) : Prop where
  tasks : Pool.Step Work a.tasks a'.tasks
  off : a'.off = {vni | (vni ∈ a.off ∨ Returns a.tasks a'.tasks vni) ∧
    Unsubscribed vni a'.tasks.shared}

/-- No learned `Add` of the VNI is under way: in a handler that is past its check, in the
channel, or in the hands of the distributor before its call. -/
structure Clear (vni : Vni) (c : Tasks (Actor κ)) : Prop where
  handled : ∀ i, Unable (Unsubscribed vni) (Queues vni) (c.code i)
  queued : ∀ u ∈ c.shared.chan.queue, ¬ Learned vni u
  taken : FromPeer c.shared → Unable (fun _ ↦ True) (Installs vni) (c.code .distributor)

/-- `unsubscribe` returns only when nothing of its VNI is under way. -/
def Settles (a a' : Watch κ) : Prop :=
  ∀ vni, Returns a.tasks a'.tasks vni → Unsubscribed vni a'.tasks.shared → Clear vni a.tasks

structure Begins (a : Watch κ) : Prop where
  idle : ∀ i, a.tasks.Idle i
  client : a.tasks.shared.world.mb.isServer = false
  off : a.off = ∅

variable {vni : Vni} {s s' : Node}

instance : Std.Irrefl (Queues vni) := ⟨fun s hex ↦ by
  obtain ⟨u, -, h⟩ := hex
  exact List.cons_ne_nil u [] (List.self_eq_append_right.mp h)⟩

instance : Std.Irrefl (Installs vni) := ⟨fun s hex ↦ by
  obtain ⟨dest, nh, h⟩ := hex
  exact List.cons_ne_nil _ [] (List.self_eq_append_right.mp h)⟩

abbrev Silent (vni : Vni) (s s' : Node) : Prop := ¬ Queues vni s s'

abbrev Passive (vni : Vni) (s s' : Node) : Prop := ¬ Installs vni s s'

instance : Std.Refl (Silent vni) := ⟨fun s ↦ Std.Irrefl.irrefl s⟩

instance : Std.Refl (Passive vni) := ⟨fun s ↦ Std.Irrefl.irrefl s⟩

theorem silent_of_chan (h : s'.chan = s.chan) : Silent vni s s' := by
  intro hex
  obtain ⟨u, -, hu⟩ := hex
  rw [h] at hu
  exact List.cons_ne_nil u [] (List.self_eq_append_right.mp hu)

theorem passive_of_calls (h : s'.world.client.calls = s.world.client.calls) : Passive vni s s' := by
  intro hex
  obtain ⟨dest, nh, hcall⟩ := hex
  rw [h] at hcall
  exact List.cons_ne_nil _ [] (List.self_eq_append_right.mp hcall)

theorem silent_send {u : InternalUpdate} (hu : ¬ Learned vni u) (s : Node) :
    Silent vni s { s with chan := (s.chan.send u).2 } := by
  intro hex
  obtain ⟨u', hu', h⟩ := hex
  by_cases hc : s.chan.closed
  · simp [Channel.send, hc] at h
  · rw [Channel.send_of_open (Bool.eq_false_iff.mpr hc), Channel.history_push] at h
    obtain rfl := List.singleton_inj.mp (List.append_cancel_left h)
    exact hu hu'

theorem passive_call {call : ClientCall} (h : ∀ dest nh, call ≠ .addRoute vni dest nh) (s : Node) :
    Passive vni s { s with world := { s.world with client := (s.world.client.call call).2 } } := by
  intro hex
  obtain ⟨dest, nh, hcall⟩ := hex
  exact h dest nh (List.singleton_inj.mp (List.append_cancel_left hcall))

theorem silent_distribute (ord : HashOrder) (u : InternalUpdate) :
    Confined (Silent vni) (distribute ord u) :=
  confined_distribute (R := Silent vni) (fun _ ↦ silent_of_chan rfl)
    (fun _ _ _ ↦ silent_of_chan rfl) ord

theorem passive_processUpdate (peer : Peer) (msg : Pb.Update) :
    Confined (Passive vni) (peer.processUpdate msg) := by
  refine peer.confined_processUpdate msg fun action v dest nh _ ↦
    ⟨fun _ _ ↦ passive_of_calls rfl, fun s ↦ passive_of_calls ?_⟩
  rw [client_applyUpdate]

theorem client_removeAnnouncement (v : Vni) (dest : Destination) (nh : NextHop) (w : World) :
    (removeAnnouncement v dest nh w).2.client = w.client := by
  unfold removeAnnouncement
  split <;> rfl

/-- The distributor alone adds routes. -/
theorem Work.passive {i : Actor κ} {o : Option InternalUpdate} {t : Code (Except Error Unit)}
    (h : Work i o t) (hi : i ≠ .distributor) : Confined (Passive vni) t := by
  have hclear : ∀ (s : Node) v, Passive vni s { s with
      world := { s.world with client := (s.world.client.call (.clearRoutesForVni v)).2 } } := by
    intro s v
    exact passive_call (fun _ _ ↦ by simp) s
  cases h with
  | subscribe k ord v =>
    exact confined_subscribe ord hclear (fun _ _ ↦ passive_of_calls rfl)
      (fun _ _ _ ↦ passive_of_calls rfl) v
  | unsubscribe k ord v =>
    exact confined_unsubscribe ord hclear (fun _ _ ↦ passive_of_calls rfl)
      (fun _ _ _ ↦ passive_of_calls rfl) v
  | processUpdate k peer _ msg => exact passive_processUpdate peer msg
  | announceRoute k v dest nh =>
    exact confined_announceRoute (fun _ ↦ passive_of_calls rfl) fun _ ↦ passive_of_calls rfl
  | withdrawRoute k v dest nh =>
    refine confined_withdrawRoute (fun s ↦ passive_of_calls ?_) fun _ ↦ passive_of_calls rfl
    rw [client_removeAnnouncement]
  | distribute ord u => exact absurd rfl hi

theorem unable_processUpdate {peer : Peer} (hout : peer.direction = .outgoing) (msg : Pb.Update) :
    Unable (Unsubscribed vni) (Queues vni) (peer.processUpdate msg) := by
  unfold processUpdate
  split
  · exact .ret _
  · next action v dest nh _ =>
    refine .reading_bind fun s hs ↦ ?_
    by_cases hv : v = vni
    · have hunsubscribed : vni ∉ s.world.mb.mySubscriptions := hs
      simp only [hv, hunsubscribed, hout, decide_false, decide_true, Bool.not_false, Bool.and_self,
        if_true]
      exact .ret _
    · split
      · exact .ret _
      · have hother : ∀ action, ¬ Learned vni ⟨action, v, dest, nh, some peer.remoteAddr⟩ :=
          fun _ h ↦ hv h.2.1
        refine .of_confined (R := Silent vni) ?_ fun _ _ h ↦ h
        refine .bind (.acquire ..) fun _ ↦ .bind (.update fun _ ↦ silent_of_chan rfl)
          fun remaining ↦ ?_
        exact .bind (confined_sendChange (fun action s ↦ silent_send (hother action) s) action
          remaining) fun _ ↦ .bind (.release ..) fun _ ↦ .ret _

theorem Work.unable {i : Actor κ} {o : Option InternalUpdate} {t : Code (Except Error Unit)}
    (h : Work i o t) : Unable (Unsubscribed vni) (Queues vni) t := by
  have hown : ∀ u : InternalUpdate, u.sourcePeer = none → ¬ Learned vni u := fun u hu h ↦ h.2.2 hu
  have hsilent : Confined (Silent vni) t → Unable (Unsubscribed vni) (Queues vni) t :=
    fun h ↦ .of_confined h fun _ _ h ↦ h
  cases h with
  | subscribe k ord v =>
    exact hsilent (confined_subscribe ord (fun _ _ ↦ silent_of_chan rfl)
      (fun _ _ ↦ silent_of_chan rfl) (fun _ _ _ ↦ silent_of_chan rfl) v)
  | unsubscribe k ord v =>
    exact hsilent (confined_unsubscribe ord (fun _ _ ↦ silent_of_chan rfl)
      (fun _ _ ↦ silent_of_chan rfl) (fun _ _ _ ↦ silent_of_chan rfl) v)
  | processUpdate k peer hout msg => exact unable_processUpdate hout msg
  | announceRoute k v dest nh =>
    exact hsilent (confined_announceRoute (fun _ ↦ silent_of_chan rfl) (silent_send (hown _ rfl)))
  | withdrawRoute k v dest nh =>
    exact hsilent (confined_withdrawRoute (fun _ ↦ silent_of_chan rfl) (silent_send (hown _ rfl)))
  | distribute ord u => exact hsilent (silent_distribute ord u)

theorem unable_distribute {u : InternalUpdate} (hu : ¬ Learned vni u) (hpeer : u.sourcePeer ≠ none)
    (ord : HashOrder) : Unable (fun _ ↦ True) (Installs vni) (distribute ord u) := by
  have hcall : ∀ dest nh, clientCall u ≠ .addRoute vni dest nh := by
    obtain ⟨action, v, dest, nh, source⟩ := u
    intro dest' nh' heq
    cases action with
    | add =>
      cases heq
      exact hu ⟨rfl, rfl, hpeer⟩
    | remove => cases heq
  have hconfined : Confined (Passive vni) (distribute ord u) :=
    confined_distribute (R := Passive vni) (passive_call hcall) (fun _ _ _ ↦ passive_of_calls rfl) ord
  exact .of_confined hconfined fun _ _ h ↦ h

theorem silent_unsubscribe {k : κ} {v : Vni} {o : Option InternalUpdate}
    {t : Code (Except Error Unit)} (h : Work (.unsubscriber k v) o t) : Confined (Silent vni) t := by
  cases h with
  | unsubscribe k ord v =>
    exact confined_unsubscribe ord (fun _ _ ↦ silent_of_chan rfl) (fun _ _ ↦ silent_of_chan rfl)
      (fun _ _ _ ↦ silent_of_chan rfl) v

section Steps

variable [DecidableEq κ] {c c' : Tasks (Actor κ)}

structure Behaves (c : Tasks (Actor κ)) : Prop where
  passive : ∀ i, i ≠ .distributor → ∀ vni, Confined (Passive vni) (c.code i)
  silent : ∀ k v vni, Confined (Silent vni) (c.code (.unsubscriber k v))

theorem Behaves.step (h : Behaves c) (hstep : Pool.Step Work c c') : Behaves c' where
  passive i hi vni := by
    rcases hstep.code i with heq | ⟨e, hmove⟩ | ⟨o, -, hstart⟩
    · rw [heq]
      exact h.passive i hi vni
    · exact ((h.passive i hi vni).move hmove).2
    · exact hstart.passive hi
  silent k v vni := by
    rcases hstep.code (.unsubscriber k v) with heq | ⟨e, hmove⟩ | ⟨o, -, hstart⟩
    · rw [heq]
      exact h.silent k v vni
    · exact ((h.silent k v vni).move hmove).2
    · exact silent_unsubscribe hstart

theorem queued_of_move {t t' : Code (Except Error Unit)} {e : Option (LockEvent Lock)}
    (hmove : Move t s e t' s') (hsilent : Silent vni s s')
    (hqueued : ∀ u ∈ s.chan.queue, ¬ Learned vni u) : ∀ u ∈ s'.chan.queue, ¬ Learned vni u := by
  intro u hu
  rcases hmove.chan with hchan | ⟨u', hchan⟩
  · rw [hchan] at hu
    exact hqueued u hu
  · rw [hchan] at hu
    rcases List.mem_append.mp hu with hu | hu
    · exact hqueued u hu
    · obtain rfl := List.mem_singleton.mp hu
      exact fun hlearned ↦ hsilent ⟨u, hlearned, by rw [hchan, Channel.history_push]⟩

theorem fromPeer_of_move {t t' : Code (Except Error Unit)} {e : Option (LockEvent Lock)}
    (hmove : Move t s e t' s') : FromPeer s' ↔ FromPeer s := by
  rcases hmove.chan with hchan | ⟨u, hchan⟩
  · rw [FromPeer, FromPeer, hchan]
  · rw [FromPeer, FromPeer, hchan, Channel.taken_push]

structure Off (vni : Vni) (c : Tasks (Actor κ)) : Prop extends Clear vni c where
  unsubscribed : Unsubscribed vni c.shared

theorem Off.step (h : Off vni c) (hstep : Pool.Step Work c c')
    (hsubs : Unsubscribed vni c'.shared) : Off vni c' := by
  have hhandled : ∀ i, Unable (Unsubscribed vni) (Queues vni) (c'.code i) := by
    intro i
    rcases hstep.code i with heq | ⟨e, hmove⟩ | ⟨o, -, hstart⟩
    · rw [heq]
      exact h.handled i
    · exact ((h.handled i).move hmove h.unsubscribed).2
    · exact hstart.unable
  refine ⟨⟨hhandled, ?_, ?_⟩, hsubs⟩
  · cases hstep with
    | move i e t s _ hmove =>
      exact queued_of_move hmove ((h.handled i).move hmove h.unsubscribed).1 h.queued
    | start => exact h.queued
    | receive i u ch t _ hrecv =>
      intro u' hu'
      refine h.queued u' ?_
      rw [Channel.queue_of_recv hrecv]
      exact List.mem_cons_of_mem u hu'
  · intro hfrom
    cases hstep with
    | move i e t s _ hmove =>
      have htaken := h.taken ((fromPeer_of_move hmove).mp hfrom)
      rw [Pool.code_set]
      by_cases hi : i = .distributor
      · subst hi
        rw [Function.update_self]
        exact (htaken.move hmove trivial).2
      · rwa [Function.update_of_ne (Ne.symm hi)]
    | start i t _ hstart =>
      have hi : i ≠ .distributor := by
        rintro rfl
        cases hstart
      rw [Pool.code_set, Function.update_of_ne hi.symm]
      exact h.taken hfrom
    | receive i u ch t _ hrecv hstart =>
      cases hstart with
      | distribute ord u =>
        obtain ⟨u', hlast, hpeer⟩ := hfrom
        simp only [Pool.shared_set, Channel.taken_of_recv hrecv, List.getLast?_concat,
          Option.some.injEq] at hlast
        subst hlast
        have hu : ¬ Learned vni u := h.queued u (by
          rw [Channel.queue_of_recv hrecv]
          exact List.mem_cons_self)
        rw [Pool.code_set, Function.update_self]
        exact unable_distribute hu hpeer ord

theorem off_of_returns (hclear : Clear vni c) (hbehaves : Behaves c)
    (hstep : Pool.Step Work c c') (hreturns : Returns c c' vni)
    (hsubs : Unsubscribed vni c'.shared) : Off vni c' := by
  obtain ⟨k, hbusy, hdone⟩ := hreturns
  have hself : ∀ {i p s}, c' = c.set i p s → i = .unsubscriber k vni := by
    intro i p s hc
    by_contra hi
    rw [hc, Pool.code_set, Function.update_of_ne (Ne.symm hi)] at hdone
    exact hbusy ⟨_, hdone⟩
  cases hstep with
  | move i e t s _ hmove =>
    obtain rfl := hself rfl
    have hsilent := (hbehaves.silent k vni vni).move hmove
    refine ⟨⟨?_, queued_of_move hmove hsilent.1 hclear.queued, fun hfrom ↦ ?_⟩, hsubs⟩
    · refine fun j ↦ ?_
      by_cases hj : j = .unsubscriber k vni
      · rw [hj, hdone]
        exact .ret _
      · rw [Pool.code_set, Function.update_of_ne hj]
        exact hclear.handled j
    · rw [Pool.code_set, Function.update_of_ne (by simp)]
      exact hclear.taken ((fromPeer_of_move hmove).mp hfrom)
  | start i t hidle =>
    obtain rfl := hself rfl
    exact absurd hidle hbusy
  | receive i u ch t hidle =>
    obtain rfl := hself rfl
    exact absurd hidle hbusy

end Steps

variable {a₀ a a' : Watch κ}

structure Sound (a : Watch κ) : Prop where
  behaves : Behaves a.tasks
  off : ∀ vni ∈ a.off, Off vni a.tasks

theorem Begins.sound (h : Begins a) : Sound a where
  behaves := by
    refine ⟨fun i _ vni ↦ ?_, fun k v vni ↦ ?_⟩
    · obtain ⟨r, hr⟩ := h.idle i
      rw [hr]
      trivial
    · obtain ⟨r, hr⟩ := h.idle (.unsubscriber k v)
      rw [hr]
      trivial
  off vni hvni := by
    rw [h.off] at hvni
    exact absurd hvni (Set.notMem_empty vni)

variable [DecidableEq κ]

theorem Sound.step (h : Sound a) (hstep : Step a a') (hsettles : Settles a a') : Sound a' where
  behaves := h.behaves.step hstep.tasks
  off vni hvni := by
    rw [hstep.off] at hvni
    obtain ⟨hoff | hreturns, hsubs⟩ := hvni
    · exact (h.off vni hoff).step hstep.tasks hsubs
    · exact off_of_returns (hsettles vni hreturns hsubs) h.behaves hstep.tasks hreturns hsubs

theorem Sound.not_installs (h : Sound a) (hstep : Step a a') (hvni : vni ∈ a.off)
    (hfrom : FromPeer a.tasks.shared) : ¬ Installs vni a.tasks.shared a'.tasks.shared := by
  have htasks := hstep.tasks
  obtain ⟨tasks', off'⟩ := a'
  cases htasks with
  | move i e t s _ hmove =>
    by_cases hi : i = .distributor
    · subst hi
      exact (((h.off vni hvni).taken hfrom).move hmove trivial).1
    · exact ((h.behaves.passive i hi vni).move hmove).1
  | start => exact passive_of_calls rfl
  | receive => exact passive_of_calls rfl

/-- As long as `unsubscribe` returns only when nothing of its VNI is under way, no learned
route of an unsubscribed VNI is installed. -/
theorem never_installs (hbegins : Begins a₀)
    (hrun : Run (fun a a' ↦ Step a a' ∧ Settles a a') a₀ a) (hstep : Step a a') :
    ∀ vni ∈ a.off, FromPeer a.tasks.shared → ¬ Installs vni a.tasks.shared a'.tasks.shared := by
  have hsound : Sound a :=
    hrun.invariant hbegins.sound fun _ _ h hstep ↦ h.step hstep.1 hstep.2
  exact fun vni hvni ↦ hsound.not_installs hstep hvni

def Watch.next (a : Watch κ) (c : Tasks (Actor κ)) : Watch κ :=
  ⟨c, {vni | (vni ∈ a.off ∨ Returns a.tasks c vni) ∧ Unsubscribed vni c.shared}⟩

section Runs

variable {c c' : Tasks (Actor κ)} {P : Tasks (Actor κ) → Prop} {k : κ} {ord : HashOrder}

theorem exists_watch (hrun : Run (fun d d' ↦ Pool.Step Work d d' ∧ P d) c c') (off : Set Vni) :
    ∃ off', Run (fun a a' ↦ Step a a' ∧ P a.tasks) ⟨c, off⟩ ⟨c', off'⟩ := by
  induction hrun with
  | refl => exact ⟨off, .refl⟩
  | @tail d d' _ hstep ih =>
    obtain ⟨off', hrun⟩ := ih
    exact ⟨((⟨d, off'⟩ : Watch κ).next d').off, hrun.snoc ⟨⟨hstep.1, rfl⟩, hstep.2⟩⟩

def Only (k : κ) (ord : HashOrder) (vni : Vni) (i : Actor κ) (o : Option InternalUpdate)
    (t : Code (Except Error Unit)) : Prop :=
  i = .unsubscriber k vni ∧ o = none ∧ t = unsubscribe ord vni

theorem step_of_only (h : Pool.Step (Only k ord vni) c c') : Pool.Step Work c c' :=
  h.mono fun i o t hstart ↦ by
    obtain ⟨rfl, rfl, rfl⟩ := hstart
    exact .unsubscribe k ord vni

theorem exists_off {held : List (Guard Lock)} {s' : Node} (hheld : ∀ i, c.held i = [])
    (hidle : c.Idle (.unsubscriber k vni))
    (hexec : exec [] (unsubscribe ord vni) c.shared = .done (.ok ()) held s')
    (hsubs : Unsubscribed vni s')
    (hP : ∀ d, Run (Pool.Step (Only k ord vni)) c d → P d) (off : Set Vni) : ∃ off',
      Run (fun a a' ↦ Step a a' ∧ P a.tasks) ⟨c, off⟩
        ⟨c.set (.unsubscriber k vni) ⟨held, .ret (.ok ())⟩ s', off'⟩ ∧ vni ∈ off' := by
  have hfirst : Pool.Step (Only k ord vni) c
      (c.set (.unsubscriber k vni) ⟨[], unsubscribe ord vni⟩ c.shared) := by
    have hstart : Pool.Step (Only k ord vni) c _ := .start _ _ hidle ⟨rfl, rfl, rfl⟩
    rwa [hheld] at hstart
  have hne : ∀ r, unsubscribe ord vni ≠ .ret r := by
    intro r h
    cases h
  obtain ⟨p, s₁, hrun, hbusy, hlast⟩ := Pool.run_to_last (c := c) (i := .unsubscriber k vni)
    (fun j _ ↦ hheld j) hne hexec
  have hrun' := Run.cons hfirst hrun
  have hP' : Run (fun d d' ↦ Pool.Step Work d d' ∧ P d) c (c.set (.unsubscriber k vni) p s₁) := by
    clear hbusy hlast
    generalize c.set (.unsubscriber k vni) p s₁ = c₁ at hrun'
    induction hrun' with
    | refl => exact .refl
    | tail hrun hstep ih => exact ih.snoc ⟨step_of_only hstep, hP _ hrun⟩
  obtain ⟨off', hwatch⟩ := exists_watch hP' off
  refine ⟨(Watch.next ⟨_, off'⟩ _).off, hwatch.snoc ⟨⟨step_of_only hlast, rfl⟩, hP _ hrun'⟩, ?_⟩
  have hdone : (c.set (.unsubscriber k vni) ⟨held, .ret (.ok ())⟩ s').code (.unsubscriber k vni) =
      .ret (.ok ()) := by
    rw [Pool.code_set, Function.update_self]
  have hcode : (c.set (.unsubscriber k vni) p s₁).code (.unsubscriber k vni) = p.code := by
    rw [Pool.code_set, Function.update_self]
  refine ⟨.inr ⟨k, fun hex ↦ ?_, hdone⟩, hsubs⟩
  obtain ⟨r, hr⟩ := hex
  exact hbusy r (hcode.symm.trans hr)

structure Still (c d : Tasks (Actor κ)) : Prop where
  chan : d.shared.chan = c.shared.chan
  codes : ∀ i, Confined (fun s s' ↦ s'.chan = s.chan) (d.code i)
  passive : ∀ vni i, Confined (Passive vni) (d.code i)

theorem still_of_only (hidle : ∀ i, c.Idle i)
    (hrun : Run (Pool.Step (Only k ord vni)) c c') : Still c c' := by
  refine hrun.invariant ⟨rfl, fun i ↦ ?_, fun vni i ↦ ?_⟩ fun d d' h hstep ↦ ?_
  · obtain ⟨r, hr⟩ := hidle i
    rw [hr]
    trivial
  · obtain ⟨r, hr⟩ := hidle i
    rw [hr]
    trivial
  · have hrefl : Std.Refl fun s s' : Node ↦ s'.chan = s.chan := ⟨fun _ ↦ rfl⟩
    refine ⟨?_, fun i ↦ ?_, fun v i ↦ ?_⟩
    · cases hstep with
      | move i e t s _ hmove => exact ((h.codes i).move hmove).1.trans h.chan
      | start => exact h.chan
      | receive i u ch t _ _ hstart => cases hstart.2.1
    · rcases hstep.code i with heq | ⟨e, hmove⟩ | ⟨o, -, -, -, ht⟩
      · rw [heq]
        exact h.codes i
      · exact ((h.codes i).move hmove).2
      · rw [ht]
        exact confined_unsubscribe ord (fun _ _ ↦ rfl) (fun _ _ ↦ rfl) (fun _ _ _ ↦ rfl) vni
    · rcases hstep.code i with heq | ⟨e, hmove⟩ | ⟨o, -, rfl, rfl, ht⟩
      · rw [heq]
        exact h.passive v i
      · exact ((h.passive v i).move hmove).2
      · rw [ht]
        exact (Work.unsubscribe k ord vni).passive nofun

omit [DecidableEq κ] in
theorem Still.clear (h : Still c c') (hqueue : c.shared.chan.queue = []) (vni : Vni) :
    Clear vni c' where
  handled i := .of_confined (h.codes i) fun _ _ hchan ↦ silent_of_chan hchan
  queued u hu := by
    rw [h.chan, hqueue] at hu
    exact absurd hu List.not_mem_nil
  taken _ := .of_confined (h.passive vni .distributor) fun _ _ h ↦ h

end Runs

def subscribedNode : Node :=
  let s := withSubscriptions (Sample.node false) (insert 100)
  { s with world := { s.world with client := (s.world.client.call (.clearRoutesForVni 100)).2 } }

def server : Peer := Sample.peer 1 .outgoing

def learnedNode : Node := (exec [] (server.processUpdate (Sample.update .add)) subscribedNode).shared

def unsubscribedNode (s : Node) : Node :=
  let s := withSubscriptions s (·.erase 100)
  { s with world := { s.world with client := (s.world.client.call (.clearRoutesForVni 100)).2 } }

theorem exec_unsubscribed {s : Node} (hclient : s.world.mb.isServer = false)
    (hknown : 100 ∈ s.world.mb.mySubscriptions) (hpeers : s.world.mb.peers = ∅)
    (hok : (s.world.client.call (.clearRoutesForVni 100)).1 = true) :
    exec [] (unsubscribe default 100) s = .done (.ok ()) [] (unsubscribedNode s) := by
  rw [exec_unsubscribe_known default hclient hknown, hok, if_pos rfl,
    resubscribed_of_no_peers]
  · rfl
  · exact hpeers

omit [DecidableEq κ] in
theorem mem_off_next {a : Watch κ} {c : Tasks (Actor κ)} (hvni : vni ∈ a.off)
    (hsubs : Unsubscribed vni c.shared) : vni ∈ (a.next c).off :=
  ⟨.inl hvni, hsubs⟩

/-- The route has been passed on, then the client unsubscribes, and the server announces the
route again. -/
def distributedNode : Node := { learnedNode with chan := ⟨learnedNode.chan.queue, [], false⟩ }

theorem never_installs_sample : ∃ a a' : Watch Unit, Step a a' ∧ 100 ∈ a.off ∧
    FromPeer a.tasks.shared ∧ ¬ Installs 100 a.tasks.shared a'.tasks.shared := by
  let c := Sample.tasks (Actor Unit) distributedNode
  have hbegins : Begins (⟨c, ∅⟩ : Watch Unit) := ⟨Sample.idle_tasks _, rfl, rfl⟩
  obtain ⟨off, hrun, hoff⟩ := exists_off (P := fun d ↦ ∀ vni, Clear vni d) (c := c) (k := ())
    (fun _ ↦ rfl) (Sample.idle_tasks ..)
    (exec_unsubscribed (s := distributedNode) rfl (by decide) rfl rfl)
    (show 100 ∉ (unsubscribedNode distributedNode).world.mb.mySubscriptions by decide)
    (fun d h ↦ (still_of_only (Sample.idle_tasks _) h).clear rfl) ∅
  let a : Watch Unit :=
    ⟨c.set (.unsubscriber () 100) ⟨[], .ret (.ok ())⟩ (unsubscribedNode distributedNode), off⟩
  have hstart : Pool.Step Work a.tasks _ :=
    .start (.handler ()) _ ⟨.ok (), rfl⟩ (.processUpdate () server rfl (Sample.update .add))
  have hstep : Step a (a.next _) := ⟨hstart, rfl⟩
  have hfrom : FromPeer a.tasks.shared := ⟨_, rfl, nofun⟩
  have hrun' : Run (fun a a' ↦ Step a a' ∧ Settles a a') ⟨c, ∅⟩ a :=
    hrun.mono fun _ _ h ↦ ⟨h.1, fun vni _ _ ↦ h.2 vni⟩
  exact ⟨a, _, hstep, hoff, hfrom, never_installs hbegins hrun' hstep 100 hoff hfrom⟩

/-- A learned route still waits in the channel when `unsubscribe` returns. -/
theorem late_route_installed : ¬ ∀ a₀ a a' : Watch Unit, Begins a₀ → Run Step a₀ a → Step a a' →
    ∀ vni ∈ a.off, FromPeer a.tasks.shared →
      ¬ Installs vni a.tasks.shared a'.tasks.shared := by
  intro hevery
  let c := Sample.tasks (Actor Unit) (Sample.node false)
  let c₁ := c.set (.subscriber ()) ⟨[], .ret (.ok ())⟩ subscribedNode
  let c₂ := c₁.set (.handler ()) ⟨[], .ret (.ok ())⟩ learnedNode
  have hheld₁ : ∀ i, c₁.held i = [] := Pool.unguarded_set (fun _ ↦ rfl) _ _ _
  have hheld₂ : ∀ i, c₂.held i = [] := Pool.unguarded_set hheld₁ _ _ _
  have hsubscribe : exec [] (subscribe default 100) c.shared = .done (.ok ()) [] subscribedNode := by
    have hnew : 100 ∉ c.shared.world.mb.mySubscriptions := by decide
    rw [exec_subscribe_new default rfl hnew, resubscribed_of_no_peers]
    · rfl
    · rfl
  have hrun₁ : Run (Pool.Step Work) c c₁ :=
    Pool.run_whole (fun _ ↦ rfl) (Sample.idle_tasks ..) (.subscribe () default 100) hsubscribe
  have hrun₂ : Run (Pool.Step Work) c₁ c₂ :=
    Pool.run_whole hheld₁ ⟨_, rfl⟩ (.processUpdate () server rfl (Sample.update .add)) rfl
  have hrun₂' : Run (fun d d' ↦ Pool.Step Work d d' ∧ True) c c₂ :=
    Run.mono (hrun₁.trans hrun₂) fun _ _ h ↦ ⟨h, trivial⟩
  obtain ⟨off₂, hwatch₂⟩ := exists_watch hrun₂' ∅
  obtain ⟨off₃, hwatch₃, hoff₃⟩ := exists_off (P := fun _ ↦ True) (c := c₂) (k := ())
    hheld₂ ⟨.ok (), rfl⟩ (exec_unsubscribed (s := learnedNode) rfl (by decide) rfl rfl)
    (show 100 ∉ (unsubscribedNode learnedNode).world.mb.mySubscriptions by decide)
    (fun _ _ ↦ trivial) off₂
  let c₃ := c₂.set (.unsubscriber () 100) ⟨[], .ret (.ok ())⟩ (unsubscribedNode learnedNode)
  have hheld₃ : ∀ i, c₃.held i = [] := Pool.unguarded_set hheld₂ _ _ _
  have hunsubscribed : Unsubscribed 100 c₃.shared := by
    show 100 ∉ (unsubscribedNode learnedNode).world.mb.mySubscriptions
    decide
  let u : InternalUpdate :=
    ⟨.add, 100, Sample.destination, Sample.nextHop, some server.remoteAddr⟩
  let s₄ : Node := { c₃.shared with chan := ⟨[u], [], false⟩ }
  let c₄ := c₃.set .distributor ⟨[], distribute default u⟩ s₄
  have hheld₄ : ∀ i, c₄.held i = [] := Pool.unguarded_set hheld₃ _ _ _
  have hreceive : Pool.Step Work c₃ c₄ := by
    have hstep : Pool.Step Work c₃ _ :=
      .receive .distributor u _ _ ⟨.ok (), rfl⟩ rfl (.distribute default u)
    rwa [hheld₃] at hstep
  let c₅ := c₄.set .distributor ⟨[(.metalbondState, .read)], do
    let _ ← callClient (clientCall u)
    let peers ← gets fun w ↦ peersToNotify default u.vni w.mb
    forwardAll u peers
    release .metalbondState .read
    return .ok ()⟩ s₄
  have hlock : Pool.Step Work c₄ c₅ := by
    have hallowed : Allows c₄.held (some (.acquire .metalbondState .read)) := by
      intro i
      rw [hheld₄, clashes_nil]
    have hmove : Move (c₄.code .distributor) s₄ (some (.acquire .metalbondState .read))
        (c₅.code .distributor) s₄ := .lock ..
    have hstep : Pool.Step Work c₄ _ := .move .distributor _ _ s₄ hallowed hmove
    rwa [hheld₄] at hstep
  have hmove : Move (c₅.code .distributor) s₄ none _ _ := .act ..
  have hcall : Pool.Step Work c₅ _ := .move .distributor none _ _ trivial hmove
  let a₃ : Watch Unit := ⟨c₃, off₃⟩
  let a₅ := (a₃.next c₄).next c₅
  have hrun₃ : Run Step ⟨c, ∅⟩ a₃ := Run.mono (hwatch₂.trans hwatch₃) fun _ _ h ↦ h.1
  have hrun : Run Step ⟨c, ∅⟩ a₅ := (hrun₃.snoc ⟨hreceive, rfl⟩).snoc ⟨hlock, rfl⟩
  have hoff₅ : 100 ∈ a₅.off := mem_off_next (mem_off_next hoff₃ hunsubscribed) hunsubscribed
  have hbegins : Begins (⟨c, ∅⟩ : Watch Unit) := ⟨Sample.idle_tasks _, rfl, rfl⟩
  refine hevery ⟨c, ∅⟩ a₅ (a₅.next _) hbegins hrun ⟨hcall, rfl⟩ 100 hoff₅ ⟨u, rfl, nofun⟩ ?_
  exact ⟨Sample.destination, Sample.nextHop, rfl⟩

end MetalBond.LateInstalls
