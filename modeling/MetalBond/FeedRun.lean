import MetalBond.Feed

namespace MetalBond

open Async Task Collections HashMap

/-- The task of the peer, the distributor, and any number of other tasks. -/
inductive Party (κ : Type)
  | link
  | distributor
  | other (k : κ)
  deriving DecidableEq

namespace Feed

/-- What a step of the peer's own task may do. -/
inductive LinkStep (F : Feed) :
    LinkStage → Option (LockEvent Lock) → Node → LinkStage → Node → Prop
  | quiet {l e s s'} (hl : l = .looking → e ≠ some (.release .metalbondState .read))
    (h : F.Quiets s s') : LinkStep F l e s l s'
  | enter {s s'} (hcalm : F.Calm s → F.Calm s') (hentered : F.Entered s')
    (hreceived : F.peer.received s' = F.peer.received s) (hchan : s'.chan = s.chan) :
    LinkStep F .fresh none s .entered s'
  | look {s} : LinkStep F .entered (some (.acquire .metalbondState .read)) s .looking s
  | unlook {s} : LinkStep F .looking (some (.release .metalbondState .read)) s .entered s
  | snapshot {rest s} (h : ∀ r, r ∈ rest ↔ F.Wanted r ∧ (F.table s.world.mb).Has r) :
    LinkStep F .looking none s (.sending rest) s
  | send {r rest s s'} (hwanted : F.Wanted r) (h : F.Tells (.add r) s s') :
    LinkStep F (.sending (r :: rest)) none s (.sending rest) s'

def LinkKnows (F : Feed) : LinkStage → Node → Prop
  | .fresh, s => F.Calm s ∧ ¬ F.Entered s
  | .entered, s | .looking, s => F.Calm s ∧ F.Entered s
  | .sending _, s => F.Entered s ∧ F.peer.HasRoom s

def link (F : Feed) : Protocol LinkStage Lock World InternalUpdate where
  Knows l _ s := F.LinkKnows l s
  Step := F.LinkStep
  Idle l := l = .fresh ∨ l = .sending []
  Start _ _ _ := False

def Open (F : Feed) (s : Node) : Prop := F.Entered s ∧ F.peer.HasRoom s

def Adds (F : Feed) (r : Route) (s s' : Node) : Prop :=
  F.peer.received s' = F.peer.received s ++ [.add r]

variable {F : Feed} {s s' : Node}

theorem quiet_link {l : LinkStage} (hl : l ≠ .looking) :
    Quiet F.link l F.Quiets fun _ ↦ True where
  act _ h := .quiet (fun h ↦ absurd h hl) h
  acquire _ _ := .quiet (fun h ↦ absurd h hl) (Std.Refl.refl _)
  release _ _ := .quiet (fun h ↦ absurd h hl) (Std.Refl.refl _)

theorem linkStep_sending {rest : List Route} {l : LinkStage} {e : Option (LockEvent Lock)}
    (h : F.LinkStep (.sending rest) e s l s') :
    l = .sending rest ∧ F.Quiets s s' ∨
      e = none ∧ ∃ r rest', rest = r :: rest' ∧ l = .sending rest' ∧ F.Tells (.add r) s s' := by
  cases h with
  | quiet _ h => exact Or.inl ⟨rfl, h⟩
  | send _ h => exact Or.inr ⟨rfl, _, _, rfl, rfl, h⟩

theorem Quiets.not_adds (h : F.Quiets s s') (r : Route) : ¬ F.Adds r s s' := by
  intro hadds
  have hlen := congrArg List.length (h.received.symm.trans hadds)
  simp at hlen

theorem follows_tell {vni : Vni} {dest : Destination} {nh : NextHop} {rest : List Route}
    (hwanted : F.Wanted (vni, dest, nh)) :
    Follows F.link (fun l r ↦ l = .sending rest ∧ r = .ok ())
      (F.peer.sendUpdate .add vni dest nh) (.sending ((vni, dest, nh) :: rest)) := by
  refine .update fun s hs ↦ ⟨.sending rest, .send hwanted ?_, rfl, (hs.2.trySend _).1⟩
  exact tells_sent hs.2 (change?_updateMessage ..)

theorem follows_look {α : Type} {f : World → α} {list : α → List Route}
    (h : ∀ s : Node, F.Calm s → ∀ r, r ∈ list (f s.world) ↔ F.Wanted r ∧ (F.table s.world.mb).Has r) :
    Follows F.link (fun l a ↦ l = .sending (list a)) (reading .metalbondState f) .entered := by
  have hacquire : Follows F.link (fun l _ ↦ l = .looking) (acquire .metalbondState .read) .entered :=
    .acquire fun s _ ↦ ⟨.looking, .look, rfl⟩
  have hgets : Follows F.link (fun l a ↦ l = .sending (list a)) (gets f) .looking :=
    .gets fun s hs ↦ ⟨_, .snapshot (h s hs.1), rfl⟩
  refine hacquire.andThen fun _ ↦ hgets.bind fun l a hl ↦ ?_
  subst hl
  have hquiet : Quiet F.link (.sending (list a)) F.Quiets fun _ ↦ True := quiet_link nofun
  exact (hquiet.releases trivial).andThen fun _ ↦ .ret rfl

section Sending

variable {α : Type} {Post : LinkStage → α → Prop} {t : Code α} {r : Route} {rest : List Route}

theorem sending_of_event {e : LockEvent Lock} (hopen : F.Open s)
    (h : ∀ s, F.LinkKnows (.sending rest) s → ∃ l, F.LinkStep (.sending rest) (some e) s l s ∧
      Follows F.link Post t l) : Follows F.link Post t (.sending rest) := by
  obtain ⟨l, hstep, ht⟩ := h s hopen
  rcases linkStep_sending hstep with ⟨rfl, -⟩ | ⟨he, -⟩
  · exact ht
  · cases he

theorem bound_of_sending (hpost : ∀ rest a, Post (.sending rest) a → rest = []) (hopen : F.Open s)
    (h : Follows F.link Post t (.sending rest)) (hr : r ∈ rest) :
    Bound F.Open (F.Adds r) t := by
  have hnext : ∀ {rest l s s'} {k : Code α}, F.LinkStep (.sending rest) none s l s' →
      Follows F.link Post k l → r ∈ rest → F.Adds r s s' ∨
        ∃ rest', Follows F.link Post k (.sending rest') ∧ r ∈ rest' := by
    intro rest l s s' k hstep hk hr
    rcases linkStep_sending hstep with ⟨rfl, -⟩ | ⟨-, r', rest', rfl, rfl, htells⟩
    · exact Or.inr ⟨rest, hk, hr⟩
    · rcases List.mem_cons.mp hr with rfl | hr
      · exact Or.inl htells.received
      · exact Or.inr ⟨rest', hk, hr⟩
  induction t generalizing rest with
  | ret a =>
    rw [hpost rest a h] at hr
    cases hr
  | act f k ih =>
    intro s hs
    obtain ⟨l, hstep, hk⟩ := h s hs
    exact (hnext hstep hk hr).imp_right fun ⟨rest', hk, hr⟩ ↦ ih s.world hk hr
  | lock l m k ih => exact ih (sending_of_event hopen h) hr
  | unlock l m k ih => exact ih (sending_of_event hopen h) hr
  | send u k ih =>
    intro s hs
    obtain ⟨l, hstep, hk⟩ := h s hs
    exact (hnext hstep hk hr).imp_right fun ⟨rest', hk, hr⟩ ↦ ih _ hk hr

theorem mem_of_able (hopen : F.Open s) (h : Follows F.link Post t (.sending rest))
    (hable : Able F.Open (F.Adds r) t) : r ∈ rest := by
  have hnext : ∀ {rest l s s'} {k : Code α}, F.LinkStep (.sending rest) none s l s' →
      Follows F.link Post k l →
      (∀ {rest}, Follows F.link Post k (.sending rest) → Able F.Open (F.Adds r) k → r ∈ rest) →
      F.Adds r s s' ∨ Able F.Open (F.Adds r) k → r ∈ rest := by
    intro rest l s s' k hstep hk ih hable
    rcases linkStep_sending hstep with ⟨rfl, hquiet⟩ | ⟨-, r', rest', rfl, rfl, htells⟩
    · exact ih hk (hable.resolve_left (hquiet.not_adds r))
    · rcases hable with hadds | hable
      · have heq := List.append_cancel_left (htells.received.symm.trans hadds)
        cases heq
        exact List.mem_cons_self
      · exact List.mem_cons_of_mem r' (ih hk hable)
  induction t generalizing rest with
  | ret a => exact hable.elim
  | act f k ih =>
    obtain ⟨s, hs, hable⟩ := hable
    obtain ⟨l, hstep, hk⟩ := h s hs
    exact hnext hstep hk (ih s.world) hable
  | lock l m k ih => exact ih (sending_of_event hopen h) hable
  | unlock l m k ih => exact ih (sending_of_event hopen h) hable
  | send u k ih =>
    obtain ⟨s, hs, hable⟩ := hable
    obtain ⟨l, hstep, hk⟩ := h s hs
    exact hnext hstep hk (ih _) hable

end Sending

inductive Effect (F : Feed) (t : Code (Except Error Unit)) :
    LinkStage → DistStage → Node → LinkStage → DistStage → Node → Prop
  | publish {l d us s s'} (h : F.Publishes us s s') : Effect F t l d s l d s'
  | link {l l' d s} (hbefore : l.unsent = none) (hafter : l'.unsent = none) (hl : l' ≠ .fresh) :
    Effect F t l d s l' d s
  | enter {d s s'} (hreceived : F.peer.received s' = F.peer.received s) (hchan : s'.chan = s.chan) :
    Effect F t .fresh d s .entered d s'
  | snapshot {d rest s} (h : ∀ r, r ∈ rest ↔ F.Wanted r ∧ (F.table s.world.mb).Has r)
    (hgood : (ledgerMonitor F.table F.first).Good (ledger F.table s)) :
    Effect F t .looking d s (.sending rest) d s
  | send {d r rest s s'} (hwanted : F.Wanted r) (h : F.Tells (.add r) s s') :
    Effect F t (.sending (r :: rest)) d s (.sending rest) d s'
  | take {l u ch s} (hrecv : s.chan.recv = some (u, ch)) :
    Effect F t l .idle s l (.popped u) { s with chan := ch }
  | owe {l u s} (h : F.peer.remoteAddr ∈ valueAt s.world.mb.subscribers u.vni) :
    Effect F t l (.popped u) s l (.owing u) s
  | skip {l ord u s} (hcode : t = notifySubscribers ord u)
    (h : F.peer.remoteAddr ∉ valueAt s.world.mb.subscribers u.vni) :
    Effect F t l (.popped u) s l .idle s
  | deliver {l u s s'} (h : F.Tells u.toChange s s') : Effect F t l (.owing u) s l .idle s'

variable {κ : Type}

structure Fed (F : Feed) (l : LinkStage) (d : DistStage) (c : Tasks (Party κ)) : Prop where
  link : Follows F.link (fun l _ ↦ F.link.Idle l) (c.code .link) l
  distributor : F.Distributing d (c.code .distributor)
  others : ∀ k, Confined F.Background (c.code (.other k))
  calm : F.Calm c.shared
  clear : ∀ u ∈ d.inHand ++ c.shared.chan.queue, F.Clear u
  entered : F.Entered c.shared ↔ l ≠ .fresh
  looking : l = .looking → (.metalbondState, .read) ∈ c.held .link

structure Plays (F : Feed)
    (Starts : Party κ → Option InternalUpdate → Code (Except Error Unit) → Prop) : Prop where
  link : ∀ o t, Starts .link o t → o = none ∧
    ∀ l, F.link.Idle l → Follows F.link (fun l _ ↦ F.link.Idle l) t l
  distributor : ∀ o t, Starts .distributor o t → ∃ ord u, o = some u ∧ t = distribute ord u
  other : ∀ k o t, Starts (.other k) o t → o = none ∧ Confined F.Background t

theorem Fed.knows {l : LinkStage} {d : DistStage} {c : Tasks (Party κ)} (h : F.Fed l d c)
    (hroom : F.peer.HasRoom c.shared) : F.LinkKnows l c.shared := by
  have hentered := h.entered
  cases l with
  | fresh => exact ⟨h.calm, fun he ↦ hentered.mp he rfl⟩
  | entered => exact ⟨h.calm, hentered.mpr nofun⟩
  | looking => exact ⟨h.calm, hentered.mpr nofun⟩
  | sending rest => exact ⟨hentered.mpr nofun, hroom⟩

theorem Fed.good {d : DistStage} {c : Tasks (Party κ)} (h : F.Fed .looking d c)
    (hsound : (ledgerMonitor F.table F.first).Sound c) :
    (ledgerMonitor F.table F.first).Good (ledger F.table c.shared) :=
  hsound.good (hsound.exclusive.notMem_write (h.looking rfl))

section Steps

variable [DecidableEq κ]

theorem LinkStep.effect {l l' : LinkStage} {d : DistStage} {e : Option (LockEvent Lock)}
    {t : Code (Except Error Unit)} (h : F.LinkStep l e s l' s')
    (hgood : l = .looking → (ledgerMonitor F.table F.first).Good (ledger F.table s)) :
    F.Effect t l d s l' d s' := by
  cases h with
  | quiet _ h => exact .publish h.publishes
  | enter _ _ hreceived hchan => exact .enter hreceived hchan
  | look => exact .link rfl rfl nofun
  | unlook => exact .link rfl rfl nofun
  | snapshot h => exact .snapshot h (hgood rfl)
  | send hwanted h => exact .send hwanted h

theorem LinkStep.keeps {l l' : LinkStage} {e : Option (LockEvent Lock)} {held : List (Guard Lock)}
    (h : F.LinkStep l e s l' s') (hcalm : F.Calm s) (hentered : F.Entered s ↔ l ≠ .fresh)
    (hlooking : l = .looking → (.metalbondState, .read) ∈ held) :
    F.Calm s' ∧ s'.chan = s.chan ∧ (F.Entered s' ↔ l' ≠ .fresh) ∧
      (l' = .looking → (.metalbondState, .read) ∈ heldAfter e held) := by
  cases h with
  | quiet hl h =>
    refine ⟨h.calm hcalm, h.chan, h.entered.trans hentered, fun hlook ↦ ?_⟩
    have hmem := hlooking hlook
    have hne := hl hlook
    rcases e with _ | ⟨l, m⟩ | ⟨l, m⟩
    · exact hmem
    · exact List.mem_cons_of_mem _ hmem
    · refine (List.mem_erase_of_ne fun heq ↦ ?_).mpr hmem
      cases heq
      exact hne rfl
  | enter hcalm' hentered' _ hchan => exact ⟨hcalm' hcalm, hchan, by simp [hentered'], nofun⟩
  | look => exact ⟨hcalm, rfl, by simpa using hentered, fun _ ↦ List.mem_cons_self⟩
  | unlook => exact ⟨hcalm, rfl, by simpa using hentered, nofun⟩
  | snapshot _ => exact ⟨hcalm, rfl, by simpa using hentered, nofun⟩
  | send _ h => exact ⟨h.calm hcalm, h.chan, h.entered.trans (by simpa using hentered), nofun⟩

theorem DistEffect.effect {l : LinkStage} {d d' : DistStage} {t : Code (Except Error Unit)}
    (h : F.DistEffect t d s d' s') : F.Effect t l d s l d' s' := by
  cases h with
  | quiet h => exact .publish h.publishes
  | owe h => exact .owe h
  | skip hcode h => exact .skip hcode h
  | deliver h => exact .deliver h

theorem DistEffect.keeps {d d' : DistStage} {t : Code (Except Error Unit)}
    (h : F.DistEffect t d s d' s') (hcalm : F.Calm s) :
    F.Calm s' ∧ s'.chan = s.chan ∧ (F.Entered s' ↔ F.Entered s) ∧ ∀ u ∈ d'.inHand, u ∈ d.inHand := by
  cases h with
  | quiet h => exact ⟨h.calm hcalm, h.chan, h.entered, fun _ hu ↦ hu⟩
  | owe h => exact ⟨hcalm, rfl, Iff.rfl, fun _ hu ↦ hu⟩
  | skip hcode h => exact ⟨hcalm, rfl, Iff.rfl, nofun⟩
  | deliver h => exact ⟨h.calm hcalm, h.chan, h.entered, nofun⟩

theorem Distributing.eq_idle {d : DistStage} {t : Code (Except Error Unit)}
    (h : F.Distributing d t) (hidle : ∃ a, t = .ret a) : d = .idle := by
  obtain ⟨a, rfl⟩ := hidle
  cases h with
  | owing u _ h => cases h
  | idle _ h => rfl

variable {Starts : Party κ → Option InternalUpdate → Code (Except Error Unit) → Prop}
variable {l : LinkStage} {d : DistStage} {c c' : Tasks (Party κ)}

theorem Fed.setLink (h : F.Fed l d c) {l' : LinkStage} {s : Node}
    {p : Proc Lock World InternalUpdate (Except Error Unit)}
    (ht : Follows F.link (fun l _ ↦ F.link.Idle l) p.code l') (hcalm : F.Calm s)
    (hchan : s.chan = c.shared.chan) (hentered : F.Entered s ↔ l' ≠ .fresh)
    (hlooking : l' = .looking → (.metalbondState, .read) ∈ p.held) :
    F.Fed l' d (c.set .link p s) where
  link := by simpa using ht
  distributor := by simpa using h.distributor
  others := fun k ↦ by simpa using h.others k
  calm := hcalm
  clear := by simpa [hchan] using h.clear
  entered := hentered
  looking := by simpa using hlooking

theorem Fed.setDistributor (h : F.Fed l d c) {d' : DistStage} {s : Node}
    {p : Proc Lock World InternalUpdate (Except Error Unit)} (ht : F.Distributing d' p.code)
    (hcalm : F.Calm s) (hclear : ∀ u ∈ d'.inHand ++ s.chan.queue, F.Clear u)
    (hentered : F.Entered s ↔ F.Entered c.shared) : F.Fed l d' (c.set .distributor p s) where
  link := by simpa using h.link
  distributor := by simpa using ht
  others := fun k ↦ by simpa using h.others k
  calm := hcalm
  clear := hclear
  entered := hentered.trans h.entered
  looking := by simpa using h.looking

theorem Fed.setOther (h : F.Fed l d c) {k : κ} {s : Node}
    {p : Proc Lock World InternalUpdate (Except Error Unit)} (ht : Confined F.Background p.code)
    (hcalm : F.Calm s) (hclear : ∀ u ∈ d.inHand ++ s.chan.queue, F.Clear u)
    (hentered : F.Entered s ↔ F.Entered c.shared) : F.Fed l d (c.set (.other k) p s) where
  link := by simpa using h.link
  distributor := by simpa using h.distributor
  others := fun k' ↦ by
    by_cases hk : k' = k
    · subst hk
      simpa using ht
    · simpa [hk] using h.others k'
  calm := hcalm
  clear := hclear
  entered := hentered.trans h.entered
  looking := by simpa using h.looking

theorem Fed.step (h : F.Fed l d c) (hplays : F.Plays Starts)
    (hsound : (ledgerMonitor F.table F.first).Sound c) (hroom : F.peer.HasRoom c.shared)
    (hstep : Pool.Step Starts c c') :
    ∃ l' d', F.Effect (c.code .distributor) l d c.shared l' d' c'.shared ∧ F.Fed l' d' c' := by
  cases hstep with
  | move i e t s hallowed hmove =>
    cases i with
    | link =>
      obtain ⟨l', hlink, ht⟩ := h.link.move hmove (h.knows hroom)
      obtain ⟨hcalm, hchan, hentered, hlooking⟩ := hlink.keeps h.calm h.entered h.looking
      exact ⟨l', d, hlink.effect fun hl ↦ (hl ▸ h).good hsound,
        h.setLink ht hcalm hchan hentered hlooking⟩
    | distributor =>
      obtain ⟨d', heffect, ht⟩ := h.distributor.move
        (fun u hu ↦ h.clear u (List.mem_append_left _ hu)) hmove h.calm hroom
      obtain ⟨hcalm, hchan, hentered, hhand⟩ := heffect.keeps h.calm
      refine ⟨l, d', heffect.effect, h.setDistributor ht hcalm (fun u hu ↦ ?_) hentered⟩
      rw [hchan] at hu
      rcases List.mem_append.mp hu with hu | hu
      · exact h.clear u (List.mem_append_left _ (hhand u hu))
      · exact h.clear u (List.mem_append_right _ hu)
    | other k =>
      obtain ⟨⟨us, hpub⟩, ht⟩ := (h.others k).move hmove
      refine ⟨l, d, .publish hpub, h.setOther ht (hpub.calm h.calm) (fun u hu ↦ ?_) hpub.entered⟩
      rw [hpub.chan, Channel.queue_pushAll, ← List.append_assoc] at hu
      rcases List.mem_append.mp hu with hu | hu
      · exact h.clear u hu
      · exact hpub.clear u hu
  | start i t hidle hstart =>
    have hnothing : F.Effect (c.code .distributor) l d c.shared l d c.shared :=
      .publish (Std.Refl.refl c.shared : F.Quiets c.shared c.shared).publishes
    refine ⟨l, d, hnothing, ?_⟩
    cases i with
    | link =>
      obtain ⟨a, ha⟩ := hidle
      have hidle := h.link
      rw [ha] at hidle
      exact h.setLink ((hplays.link none t hstart).2 l hidle) h.calm rfl h.entered h.looking
    | distributor =>
      obtain ⟨ord, u, hnone, -⟩ := hplays.distributor none t hstart
      cases hnone
    | other k => exact h.setOther (hplays.other k none t hstart).2 h.calm h.clear .rfl
  | receive i u ch t hidle hrecv hstart =>
    cases i with
    | link => cases (hplays.link (some u) t hstart).1
    | other k => cases (hplays.other k (some u) t hstart).1
    | distributor =>
      obtain ⟨ord, u', hu, rfl⟩ := hplays.distributor (some u) t hstart
      cases hu
      obtain rfl := h.distributor.eq_idle hidle
      refine ⟨l, .popped u, .take hrecv, h.setDistributor (Distributing.popped ord u)
        (F.calm_chan h.calm) (fun v hv ↦ h.clear v ?_) F.entered_chan⟩
      rw [Channel.queue_of_recv hrecv]
      exact hv

end Steps

def keptLog (F : Feed) (log : List (Change Route)) : List (Change Route) :=
  log.filter fun d ↦ decide (F.Kept d.subject)

def catchUp (F : Feed) (l : LinkStage) (d : DistStage) (s : Node) : CatchUp Route where
  leader := replay (F.first ∩ {r | F.Kept r}) (F.keptLog (s.chan.history.map (·.toChange)))
  pending := F.keptLog ((d.inHand ++ s.chan.queue).map (·.toChange))
  follower := replay ∅ (F.keptLog (F.peer.received s))
  snapshot := l.unsent.map fun rest ↦ {r | F.Kept r ∧ r ∈ rest}

@[simp] theorem keptLog_append (log log' : List (Change Route)) :
    F.keptLog (log ++ log') = F.keptLog log ++ F.keptLog log' := List.filter_append ..

theorem keptLog_singleton (d : Change Route) :
    F.keptLog [d] = if F.Kept d.subject then [d] else [] := by
  by_cases h : F.Kept d.subject <;> simp [keptLog, h]

theorem leader_eq {l : LinkStage} {d : DistStage}
    (hgood : (ledgerMonitor F.table F.first).Good (ledger F.table s)) :
    (F.catchUp l d s).leader = {r | F.Kept r ∧ (F.table s.world.mb).Has r} := by
  have hfilter : (F.catchUp l d s).leader =
      replay F.first (s.chan.history.map (·.toChange)) ∩ {r | F.Kept r} := replay_filter F.Kept
  have hlog : replay F.first (s.chan.history.map (·.toChange)) =
      (F.table s.world.mb).present := hgood.2
  rw [hfilter, hlog, Set.inter_comm]
  rfl

theorem catchUp_congr {l l' : LinkStage} {d d' : DistStage}
    (hreceived : F.peer.received s' = F.peer.received s)
    (hhistory : s'.chan.history = s.chan.history)
    (hpending : d'.inHand ++ s'.chan.queue = d.inHand ++ s.chan.queue)
    (hsnapshot : l'.unsent = l.unsent) : F.catchUp l' d' s' = F.catchUp l d s := by
  simp only [catchUp, hreceived, hhistory, hpending, hsnapshot]

/-- What must hold of an update that the distributor does not forward to the peer. -/
def MaySkip (F : Feed) (l : LinkStage) (d : DistStage) (s : Node) (u : InternalUpdate) : Prop :=
  (u.action = .add → (F.catchUp l d s).snapshot.isSome → u.route ∈ (F.catchUp l d s).told) ∧
    (u.action = .remove → u.route ∉ (F.catchUp l d s).told)

theorem toChange_eq_add {u : InternalUpdate} {r : Route} (h : u.toChange = .add r) :
    u.action = .add ∧ u.route = r := by
  unfold InternalUpdate.toChange at h
  cases hu : u.action <;> rw [hu] at h <;> cases h
  exact ⟨rfl, rfl⟩

theorem toChange_eq_remove {u : InternalUpdate} {r : Route} (h : u.toChange = .remove r) :
    u.action = .remove ∧ u.route = r := by
  unfold InternalUpdate.toChange at h
  cases hu : u.action <;> rw [hu] at h <;> cases h
  exact ⟨rfl, rfl⟩

theorem sound_skip {l : LinkStage} {u : InternalUpdate}
    (hsound : (F.catchUp l (.popped u) s).Sound)
    (hskip : F.Kept u.route → F.MaySkip l (.popped u) s u) : (F.catchUp l .idle s).Sound := by
  have hpending : (F.catchUp l (.popped u) s).pending =
      F.keptLog [u.toChange] ++ (F.catchUp l .idle s).pending := by
    simp [catchUp, DistStage.inHand, ← keptLog_append]
  have heq : F.catchUp l .idle s =
      (F.catchUp l (.popped u) s).skip (F.catchUp l .idle s).pending := rfl
  rw [keptLog_singleton] at hpending
  split at hpending
  · next hwanted =>
    obtain ⟨hadd, hrem⟩ := hskip (by simpa [InternalUpdate.toChange] using hwanted)
    rw [heq]
    refine hsound.skip hpending (fun r hr ↦ ?_) fun r hr ↦ ?_
    · obtain ⟨hact, rfl⟩ := toChange_eq_add hr
      exact hadd hact
    · obtain ⟨hact, rfl⟩ := toChange_eq_remove hr
      exact hrem hact
  · next hwanted =>
    have hsame : F.catchUp l .idle s = F.catchUp l (.popped u) s := by
      rw [heq, CatchUp.skip]
      simp only [List.nil_append] at hpending
      rw [← hpending]
    rw [hsame]
    exact hsound

theorem sound_deliver {l : LinkStage} {u : InternalUpdate}
    (hsound : (F.catchUp l (.owing u) s).Sound) (h : F.Tells u.toChange s s')
    (hdeliver : ∀ rest r, l = .sending rest →
      F.peer.received s' = F.peer.received s ++ [.remove r] → r ∉ rest) :
    (F.catchUp l .idle s').Sound := by
  have hpending : (F.catchUp l (.owing u) s).pending =
      F.keptLog [u.toChange] ++ (F.catchUp l .idle s').pending := by
    simp [catchUp, DistStage.inHand, ← keptLog_append, h.chan]
  have hfollower : (F.catchUp l .idle s').follower =
      replay (F.catchUp l (.owing u) s).follower (F.keptLog [u.toChange]) := by
    simp [catchUp, h.received]
  have hleader : (F.catchUp l .idle s').leader = (F.catchUp l (.owing u) s).leader := by
    simp [catchUp, h.chan]
  have hparts : F.catchUp l .idle s' =
      ⟨(F.catchUp l (.owing u) s).leader, (F.catchUp l .idle s').pending,
        (F.catchUp l .idle s').follower, (F.catchUp l (.owing u) s).snapshot⟩ := by
    rw [← hleader]
    rfl
  rw [hparts]
  rw [keptLog_singleton] at hpending hfollower
  split at hpending
  · next hwanted =>
    rw [if_pos hwanted] at hfollower
    rw [hfollower]
    refine hsound.deliver hpending fun r hr ↦ ?_
    cases hl : l with
    | sending rest => exact fun hmem ↦ hdeliver rest r hl (hr ▸ h.received) hmem.2
    | _ => exact Set.notMem_empty r
  · next hwanted =>
    rw [if_neg hwanted] at hfollower
    rw [hfollower]
    simp only [List.nil_append] at hpending
    rw [← hpending]
    exact hsound

theorem Effect.sound {t : Code (Except Error Unit)} {l l' : LinkStage} {d d' : DistStage}
    (heffect : F.Effect t l d s l' d' s') (hsound : (F.catchUp l d s).Sound)
    (hskip : ∀ ord u, t = notifySubscribers ord u →
      F.peer.remoteAddr ∉ valueAt s.world.mb.subscribers u.vni → d = .popped u →
      F.Kept u.route → F.MaySkip l d s u)
    (hdeliver : ∀ rest r, l = .sending rest →
      F.peer.received s' = F.peer.received s ++ [.remove r] → r ∉ rest) :
    (F.catchUp l' d' s').Sound := by
  cases heffect with
  | @publish _ _ us _ _ h =>
    have heq : F.catchUp l d s' = (F.catchUp l d s).publish (F.keptLog (us.map (·.toChange))) := by
      simp [catchUp, CatchUp.publish, h.received, h.chan]
    rw [heq]
    exact hsound.publish _
  | link hbefore hafter _ =>
    rw [catchUp_congr rfl rfl rfl (hafter.trans hbefore.symm)]
    exact hsound
  | enter hreceived hchan =>
    have heq : F.catchUp .entered d s' = F.catchUp .fresh d s :=
      catchUp_congr hreceived (by rw [hchan]) (by rw [hchan]) rfl
    rw [heq]
    exact hsound
  | @snapshot _ rest _ h hgood =>
    have hrest : {r | F.Kept r ∧ r ∈ rest} = (F.catchUp .looking d s).leader := by
      rw [leader_eq hgood]
      exact Set.ext fun r ↦ and_congr_right fun hkept ↦
        (h r).trans (and_iff_right (F.wanted hkept))
    have heq : F.catchUp (.sending rest) d s = (F.catchUp .looking d s).takeSnapshot := by
      have hsnapshot : (F.catchUp (.sending rest) d s).snapshot = some {r | F.Kept r ∧ r ∈ rest} := rfl
      rw [hrest] at hsnapshot
      exact congrArg (fun x ↦ { F.catchUp .looking d s with snapshot := x }) hsnapshot
    rw [heq]
    exact hsound.takeSnapshot rfl
  | @send _ r rest _ _ _ h =>
    by_cases hkept : F.Kept r
    · have heq : F.catchUp (.sending rest) d s' =
          (F.catchUp (.sending (r :: rest)) d s).sendSnapshot r {x | F.Kept x ∧ x ∈ rest} := by
        have hlog : F.keptLog [Change.add r] = [.add r] :=
          (keptLog_singleton _).trans (if_pos hkept)
        simp [catchUp, CatchUp.sendSnapshot, h.received, h.chan, hlog, LinkStage.unsent,
          Change.apply]
      rw [heq]
      refine hsound.sendSnapshot (congrArg some (Set.ext fun x ↦ ?_))
      by_cases hx : x = r
      · simp [hx, hkept]
      · simp [hx]
    · have heq : F.catchUp (.sending rest) d s' = F.catchUp (.sending (r :: rest)) d s := by
        have hlog : F.keptLog [Change.add r] = [] := (keptLog_singleton _).trans (if_neg hkept)
        have hrest : {x | F.Kept x ∧ x ∈ r :: rest} = {x | F.Kept x ∧ x ∈ rest} := by
          refine Set.ext fun x ↦ and_congr_right fun hx ↦ ?_
          have hne : x ≠ r := fun h ↦ hkept (h ▸ hx)
          simp [hne]
        simp only [catchUp, h.received, h.chan, keptLog_append, hlog, List.append_nil,
          LinkStage.unsent, Option.map_some, hrest]
      rw [heq]
      exact hsound
  | @take _ u ch _ hrecv =>
    have heq : F.catchUp l (.popped u) { s with chan := ch } = F.catchUp l .idle s :=
      catchUp_congr rfl (Channel.history_recv hrecv) (Channel.queue_of_recv hrecv).symm rfl
    rw [heq]
    exact hsound
  | @owe _ u _ h =>
    have heq : F.catchUp l (.owing u) s = F.catchUp l (.popped u) s := catchUp_congr rfl rfl rfl rfl
    rw [heq]
    exact hsound
  | @skip _ ord u _ hcode h => exact sound_skip hsound (hskip ord u hcode h rfl)
  | deliver h => exact sound_deliver hsound h hdeliver

theorem pending_of_drained {l : LinkStage} (hqueue : s.chan.queue = []) :
    (F.catchUp l .idle s).pending = [] := by
  simp [catchUp, DistStage.inHand, hqueue, keptLog]

theorem fed_of_unused {c : Tasks (Party κ)} (h : Unused c) (hcalm : F.Calm c.shared)
    (hentered : ¬ F.Entered c.shared) : F.Fed .fresh .idle c := by
  have hret : ∀ i, ∃ a, c.code i = .ret a := h.idle
  have hqueue : c.shared.chan.queue = [] := (List.append_eq_nil_iff.mp h.history).2
  refine ⟨?_, ?_, fun k ↦ ?_, hcalm, ?_, iff_of_false hentered (not_not_intro rfl), nofun⟩
  · obtain ⟨a, ha⟩ := hret .link
    rw [ha]
    exact Or.inl rfl
  · obtain ⟨a, ha⟩ := hret .distributor
    rw [ha]
    exact .idle _ rfl
  · obtain ⟨a, ha⟩ := hret (.other k)
    rw [ha]
    trivial
  · rw [hqueue]
    nofun

theorem sound_of_unused {c : Tasks (Party κ)} (h : Unused c)
    (huntold : (F.catchUp .fresh .idle c.shared).follower = ∅) :
    (F.catchUp .fresh .idle c.shared).Sound := by
  have hpending := @pending_of_drained F c.shared .fresh (List.append_eq_nil_iff.mp h.history).2
  refine ⟨?_, fun _ ↦ ?_, nofun⟩
  · rw [hpending, replay_nil]
  · rw [hpending, replay_nil, huntold]
    exact Set.empty_subset _

theorem Fed.link_at_rest {l : LinkStage} {d : DistStage} {c : Tasks (Party κ)} (h : F.Fed l d c)
    (hidle : ∀ i, c.Idle i) (hentered : F.Entered c.shared) : l = .sending [] := by
  obtain ⟨a, ha⟩ := hidle .link
  have hlink := h.link
  rw [ha] at hlink
  exact hlink.resolve_left (h.entered.mp hentered)

/-- When every task has finished and the channel is drained, the peer was told what is kept of
the table. -/
theorem Fed.follower_eq {l : LinkStage} {d : DistStage} {c : Tasks (Party κ)} (h : F.Fed l d c)
    (hsound : (F.catchUp l d c.shared).Sound) (hlogs : (ledgerMonitor F.table F.first).Sound c)
    (hidle : ∀ i, c.Idle i) (hdrained : c.shared.chan.queue = []) (hentered : F.Entered c.shared) :
    (F.catchUp l d c.shared).follower =
      {r | F.Kept r ∧ (F.table c.shared.world.mb).Has r} := by
  obtain rfl := h.distributor.eq_idle (hidle .distributor)
  obtain rfl := h.link_at_rest hidle hentered
  have hsnapshot : (F.catchUp (.sending []) .idle c.shared).snapshot = some ∅ := by
    simp [catchUp, LinkStage.unsent]
  rw [hsound.follower_eq (pending_of_drained hdrained) hsnapshot]
  exact leader_eq (hlogs.good_of_idle hidle)

end Feed

end MetalBond
