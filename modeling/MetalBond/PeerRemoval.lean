import MetalBond.ClientTasks

namespace MetalBond.PeerRemoval

open Async Task Collections HashMap

variable {κ : Type}

structure Stays (addr : SocketAddr) (s s' : Node) : Prop where
  peers : s'.world.mb.peers.lookup addr = s.world.mb.peers.lookup addr
  subscribers : ∀ vni, addr ∈ valueAt s'.world.mb.subscribers vni ↔
    addr ∈ valueAt s.world.mb.subscribers vni

theorem Stays.trans {addr : SocketAddr} {s s' s'' : Node} (h : Stays addr s s')
    (h' : Stays addr s' s'') : Stays addr s s'' :=
  ⟨h'.peers.trans h.peers, fun vni ↦ (h'.subscribers vni).trans (h.subscribers vni)⟩

def handles : Stage → Node → HashMap SocketAddr TaskId
  | .draining tasks, _ => tasks
  | _, s => s.world.mb.peerTasks

def Booking (σ : Stage) : Prop := σ = .booking ∨ ∃ addr, σ = .free addr

def Fits : Actor κ → Stage → Prop
  | .caller _, σ => σ = .calling ∨ Booking σ
  | .distributor, σ => σ = .distributing
  | .shutdown, σ => σ = .closing ∨ ∃ tasks, σ = .draining tasks
  | .manager _, σ => σ = .done ∨ ∃ addr, σ = .managing addr

theorem lookup_handles_of {σ : Stage} {s s' : Node} {addr : SocketAddr} {id : TaskId} {Q : Prop}
    (h : s.world.mb.peerTasks.lookup addr = some id →
      s'.world.mb.peerTasks.lookup addr = some id ∨ Q)
    (hlookup : (handles σ s).lookup addr = some id) :
    (handles σ s').lookup addr = some id ∨ Q := by
  cases σ with
  | draining tasks => exact .inl hlookup
  | _ => exact h hlookup

theorem Work.stage_eq_home {i : Actor κ} {o : Option InternalUpdate} {t : Code (Except Error Unit)}
    (h : Work i o t) {σ : Stage} (hfits : Fits i σ) (hidle : tending.Idle σ) : σ = i.home := by
  cases h with
  | distribute => exact hfits
  | shutdown =>
    rcases hfits with rfl | ⟨tasks, rfl⟩
    · rfl
    · exact hidle.elim
  | _ =>
    rcases hfits with rfl | rfl | ⟨addr, rfl⟩
    · rfl
    · exact hidle.elim
    · exact hidle.elim

section Tends

variable {i : Actor κ} {σ σ' : Stage} {e : Option (LockEvent Lock)} {s s' : Node}
variable {addr : SocketAddr}

theorem Tends.fits (h : Tends σ e s σ' s') (hi : Fits i σ) : Fits i σ' := by
  cases h <;> cases i <;> simp_all [Fits, Booking]

theorem Tends.isServer (h : Tends σ e s σ' s') : s'.world.mb.isServer = s.world.mb.isServer := by
  cases h with
  | call _ h => exact h.tasks.isServer
  | manage h => exact h.tasks.isServer
  | abort addr =>
    simp only [abortManager]
    split <;> rfl
  | _ => rfl

theorem Tends.guard (h : Tends σ e s σ' s') (hbooking : Booking σ') :
    Booking σ ∧ e = none ∨ e = some (.acquire .metalbondState .write) := by
  cases h with
  | book => exact .inr rfl
  | look => exact .inl ⟨hbooking, rfl⟩
  | find => exact .inl ⟨.inl rfl, rfl⟩
  | spawn => exact .inl ⟨.inr ⟨_, rfl⟩, rfl⟩
  | call hσ => cases hσ <;> simp [Booking] at hbooking
  | _ => simp [Booking] at hbooking

theorem Tends.mem_peerTasks (h : Tends σ e s σ' s') (hmem : addr ∈ s'.world.mb.peerTasks) :
    addr ∈ s.world.mb.peerTasks ∨ σ = .free addr := by
  cases h with
  | call _ h => exact .inl (h.tasks.peerTasks ▸ hmem)
  | manage h => exact .inl (h.tasks.peerTasks ▸ hmem)
  | abort addr =>
    simp only [abortManager] at hmem
    split at hmem
    · exact .inl hmem
    · exact .inl (Finmap.mem_erase.mp hmem).2
  | spawn =>
    rcases Finmap.mem_insert.mp hmem with rfl | hmem
    · exact .inr rfl
    · exact .inl hmem
  | stop => exact .inl (Finmap.mem_erase.mp hmem).2
  | drain => exact absurd hmem Finmap.notMem_empty
  | _ => exact .inl hmem

theorem Tends.free (h : Tends σ e s σ' s') (hσ' : σ' = .free addr) :
    addr ∉ s'.world.mb.peerTasks := by
  subst hσ'
  cases h with
  | find h => exact h
  | call hσ => cases hσ

theorem Tends.managing (h : Tends σ e s σ' s') (hσ' : σ' = .managing addr) :
    σ = .managing addr := by
  subst hσ'
  cases h with
  | call hσ => cases hσ
  | manage => rfl

theorem Tends.draining (h : Tends σ e s σ' s') {tasks : HashMap SocketAddr TaskId}
    (hσ' : σ' = .draining tasks) :
    σ = .draining tasks ∧ s' = s ∨
      (∀ addr, addr ∉ s'.world.mb.peerTasks) ∧ s.world.mb.peerTasks = tasks := by
  subst hσ'
  cases h with
  | call hσ => cases hσ
  | drain => exact .inr ⟨fun _ ↦ Finmap.notMem_empty, rfl⟩
  | unlock => exact .inl ⟨rfl, rfl⟩

theorem Tends.adds (h : Tends σ e s σ' s') (hσ : σ = .free addr) : Adds addr s s' := by
  subst hσ
  cases h with
  | call hσ => cases hσ
  | spawn => rfl

theorem Tends.of_adds (h : Tends σ e s σ' s') (hadds : Adds addr s s') :
    σ = .free addr ∧ σ' = .booking ∧ s'.world = spawnManager addr s.world := by
  have hsame : s'.world.spawned ≠ s.world.spawned := by
    rw [hadds]
    simp
  cases h with
  | call _ h => exact absurd h.tasks.spawned hsame
  | manage h => exact absurd h.tasks.spawned hsame
  | abort other =>
    refine absurd ?_ hsame
    simp only [abortManager]
    split <;> rfl
  | @spawn _ other =>
    obtain rfl : other = addr := by
      have hlist : s.world.spawned ++ [other] = s.world.spawned ++ [addr] := hadds
      simpa using hlist
    exact ⟨rfl, rfl, rfl⟩
  | _ => exact absurd rfl hsame

theorem Tends.stays (h : Tends σ e s σ' s') (hσ : σ ≠ .managing addr) : Stays addr s s' := by
  cases h with
  | call _ h => exact ⟨by rw [h.peers], fun vni ↦ by rw [h.subscribers]⟩
  | abort =>
    simp only [abortManager]
    split <;> exact ⟨rfl, fun _ ↦ .rfl⟩
  | @manage _ _ _ other h =>
    have hspares := h.others addr fun heq ↦ hσ (by rw [heq])
    exact ⟨hspares.peers, hspares.subscribers⟩
  | _ => exact ⟨rfl, fun _ ↦ .rfl⟩

theorem tends_of_move [DecidableEq κ] {held held' : Actor κ → List (Guard Lock)}
    (h : tending.Move held i σ s σ' held' s') : ∃ e, Tends σ e s σ' s' ∧ Allows held e ∧
      held' = Function.update held i (heldAfter e (held i)) := by
  cases h with
  | step e _ _ hallowed h => exact ⟨e, h, hallowed, rfl⟩
  | start _ _ h =>
    obtain ⟨hσ, rfl⟩ := h
    exact ⟨none, .call hσ (Std.Refl.refl s), trivial, (Function.update_eq_self i held).symm⟩
  | receive u ch _ _ _ h =>
    obtain ⟨hσ, rfl⟩ := h
    have hsame : SameRecords s { s with chan := ch } := rfl
    exact ⟨none, .call hσ hsame, trivial, (Function.update_eq_self i held).symm⟩

end Tends

section Sound

variable {c c' d : Tasks (Actor κ)} {σ : Actor κ → Stage} {i : Actor κ} {addr : SocketAddr}

/-- What holds when the tasks are at these stages, those aside that were aborted just now. -/
structure Kept (σ : Actor κ → Stage) (c : Tasks (Actor κ)) : Prop where
  follows : c.Follows tending σ
  exclusive : Exclusive c.held
  borrowed : Borrowed c
  fits : ∀ i, Fits i (σ i)
  guarded : ∀ i, Booking (σ i) → (Lock.metalbondState, Mode.write) ∈ c.held i
  free : ∀ i addr, σ i = .free addr → addr ∉ c.shared.world.mb.peerTasks
  /-- The node has a handle of every management task that still runs. -/
  managed : ∀ id addr, σ (.manager id) = .managing addr → id ∉ c.shared.world.aborted →
    (handles (σ .shutdown) c.shared).lookup addr = some id
  drained : ∀ tasks, σ .shutdown = .draining tasks → ∀ addr, addr ∉ c.shared.world.mb.peerTasks
  client : c.shared.world.mb.isServer = false

structure Sound (σ : Actor κ → Stage) (c : Tasks (Actor κ)) : Prop extends Kept σ c where
  stopped : ∀ id ∈ c.shared.world.aborted, σ (.manager id) = .done

theorem Begins.sound (h : Begins c) : Sound Actor.home c := by
  obtain ⟨config, hnew⟩ := h.new
  refine ⟨⟨fun i ↦ ?_, ?_, .inl (h.idle _), fun i ↦ ?_, fun i ↦ ?_, fun i _ ↦ ?_,
    fun _ _ ↦ nofun, fun _ ↦ nofun, ?_⟩, fun _ _ ↦ rfl⟩
  · obtain ⟨a, ha⟩ := h.idle i
    rw [ha]
    cases i <;> trivial
  · have hheld : c.held = fun _ ↦ [] := funext h.unguarded
    rw [hheld]
    exact exclusive_nil
  · cases i <;> simp [Fits, Actor.home]
  · cases i <;> simp [Booking, Actor.home]
  · cases i <;> simp [Actor.home]
  · rw [hnew]
    rfl

theorem Kept.not_booking (h : Kept σ c) {tasks : HashMap SocketAddr TaskId}
    (hdraining : σ .shutdown = .draining tasks) : ¬ Booking (σ i) := by
  intro hbooking
  rcases h.borrowed with hidle | hidle
  · have hσ := h.follows.idle hidle
    rw [hdraining] at hσ
    exact hσ
  · have hfits := h.fits i
    cases i with
    | caller k =>
      have hσ := h.follows.idle (hidle k)
      rcases hbooking with heq | ⟨addr, heq⟩ <;> rw [heq] at hσ <;> exact hσ
    | _ => rcases hbooking with heq | ⟨addr, heq⟩ <;> simp [Fits, heq] at hfits

theorem Kept.mem_handles (h : Kept σ c) (hmem : addr ∈ c.shared.world.mb.peerTasks) :
    addr ∈ handles (σ .shutdown) c.shared := by
  cases hσ : σ .shutdown with
  | draining tasks => exact absurd hmem (h.drained tasks hσ addr)
  | _ => exact hmem

theorem Sound.lookup_managing (h : Sound σ c) {id : TaskId} (hσ : σ (.manager id) = .managing addr) :
    (handles (σ .shutdown) c.shared).lookup addr = some id := by
  refine h.managed id addr hσ fun hmem ↦ ?_
  rw [h.stopped id hmem] at hσ
  cases hσ

def Left (addr : SocketAddr) (s : Node) (c : Tasks (Actor κ)) : Prop :=
  ∃ σ, Sound σ c ∧ addr ∉ handles (σ .shutdown) c.shared ∧ Stays addr s c.shared

theorem Left.complete_iff {s : Node} (h : Left addr s c) : Complete addr c.shared ↔
    addr ∉ s.world.mb.peers ∧ ∀ vni, addr ∉ valueAt s.world.mb.subscribers vni := by
  obtain ⟨σ, hσ, haddr, hstays⟩ := h
  have hpeers : addr ∈ c.shared.world.mb.peers ↔ addr ∈ s.world.mb.peers := by
    rw [← Finmap.lookup_isSome, hstays.peers, Finmap.lookup_isSome]
  have htasks : addr ∉ c.shared.world.mb.peerTasks := fun hmem ↦ haddr (hσ.mem_handles hmem)
  rw [← hpeers]
  constructor
  · intro hcomplete
    exact ⟨hcomplete.peers, fun vni hmem ↦
      hcomplete.subscribers vni ((hstays.subscribers vni).mpr hmem)⟩
  · rintro ⟨hnone, hsubs⟩
    refine ⟨hnone, htasks, fun vni hmem ↦ hsubs vni ((hstays.subscribers vni).mp hmem), ?_⟩
    intro parse serverAddr hparse
    exact ⟨_, exec_addPeer_free hparse hσ.client hnone htasks⟩

def haltedStage (σ : Actor κ → Stage) (aborted : Finset TaskId) : Actor κ → Stage
  | .manager id => if id ∈ aborted then .done else σ (.manager id)
  | i => σ i

theorem Kept.halted (h : Kept σ d) : ∃ τ, Sound τ (halted d) ∧ τ .shutdown = σ .shutdown := by
  let τ := haltedStage σ d.shared.world.aborted
  have hheld : (PeerRemoval.halted d).held = d.held := by
    funext i
    cases i with
    | manager id =>
      simp only [Pool.held, PeerRemoval.halted]
      split <;> rfl
    | _ => rfl
  have hbooking : ∀ {i σ'}, (σ' = .booking ∨ ∃ addr, σ' = .free addr) → τ i = σ' → σ i = σ' := by
    intro i σ' hσ' hτ
    cases i with
    | manager id =>
      by_cases hid : id ∈ d.shared.world.aborted
      · simp only [τ, haltedStage, hid, if_true] at hτ
        subst hτ
        simp at hσ'
      · simpa only [τ, haltedStage, hid, if_false] using hτ
    | _ => exact hτ
  refine ⟨τ, ⟨⟨fun i ↦ ?_, hheld ▸ h.exclusive, h.borrowed, fun i ↦ ?_, fun i hi ↦ ?_,
    fun i addr hi ↦ ?_, fun id addr hσ hid ↦ ?_, h.drained, h.client⟩, fun id hid ↦ if_pos hid⟩, rfl⟩
  · cases i with
    | manager id =>
      by_cases hid : id ∈ d.shared.world.aborted
      · simp only [Pool.code, PeerRemoval.halted, τ, haltedStage, hid, if_true]
        trivial
      · simp only [Pool.code, PeerRemoval.halted, τ, haltedStage, hid, if_false]
        exact h.follows (.manager id)
    | _ => exact h.follows _
  · cases i with
    | manager id =>
      by_cases hid : id ∈ d.shared.world.aborted
      · exact .inl (if_pos hid)
      · simp only [τ, haltedStage, hid, if_false]
        exact h.fits (.manager id)
    | _ => exact h.fits _
  · rw [hheld]
    exact h.guarded i (hbooking hi rfl ▸ hi)
  · exact h.free i addr (hbooking (.inr ⟨addr, rfl⟩) hi)
  · have hold : id ∉ d.shared.world.aborted := hid
    simp only [τ, haltedStage, hold, if_false] at hσ
    exact h.managed id addr hσ hold

variable [DecidableEq κ]

theorem stage_update {Q : Actor κ → Stage → Prop} {ρ : Stage} (hi : Q i ρ)
    (hothers : ∀ j, j ≠ i → Q j (σ j)) : ∀ j, Q j (Function.update σ i ρ j) :=
  (Function.forall_update_iff σ Q).mpr ⟨hi, hothers⟩

section Move

variable {σ' : Stage} {e : Option (LockEvent Lock)} {s' : Node}

/-- A handle goes only with its task: when it is aborted, or ends by itself. -/
theorem Kept.lookup_handles (h : Kept σ c) (hmove : Tends (σ i) e c.shared σ' s') {id : TaskId}
    (hlookup : (handles (σ .shutdown) c.shared).lookup addr = some id) :
    (handles (Function.update σ i σ' .shutdown) s').lookup addr = some id ∨
      id ∈ s'.world.aborted ∨ σ i = .managing addr ∧ σ' = .done := by
  have hfits := h.fits i
  have hstays : i ≠ .shutdown → Function.update σ i σ' .shutdown = σ .shutdown := fun hi ↦
    Function.update_of_ne hi.symm ..
  have hsame : σ' = σ i → Function.update σ i σ' .shutdown = σ .shutdown := by
    rintro rfl
    rw [Function.update_eq_self]
  generalize hσi : σ i = σ₀ at hmove hfits hsame
  cases hmove with
  | call hσ hrecords =>
    rw [hsame rfl]
    exact lookup_handles_of (fun h ↦ .inl (hrecords.tasks.peerTasks ▸ h)) hlookup
  | manage hminds =>
    rw [hsame rfl]
    exact lookup_handles_of (fun h ↦ .inl (hminds.tasks.peerTasks ▸ h)) hlookup
  | look | unlock | done =>
    rw [hsame rfl]
    exact .inl hlookup
  | book | find | leave =>
    rw [hstays (by rintro rfl; simp [Fits] at hfits)]
    exact .inl hlookup
  | abort other =>
    rw [hstays (by rintro rfl; simp [Fits] at hfits)]
    refine lookup_handles_of (fun hold ↦ ?_) hlookup
    simp only [abortManager]
    split
    · exact .inl hold
    · next task htask =>
      by_cases haddr : addr = other
      · subst haddr
        obtain rfl : task = id := Option.some.inj (htask.symm.trans hold)
        exact .inr (.inl (Finset.mem_insert_self ..))
      · exact .inl (by rw [Finmap.lookup_erase_ne haddr]; exact hold)
  | @spawn _ other =>
    rw [hstays (by rintro rfl; simp [Fits] at hfits)]
    refine lookup_handles_of (fun hold ↦ .inl ?_) hlookup
    have hne : addr ≠ other := by
      rintro rfl
      exact h.free i _ hσi (Finmap.mem_of_lookup_eq_some hold)
    simp only [spawnManager]
    rw [Finmap.lookup_insert_of_ne _ hne]
    exact hold
  | drain =>
    obtain rfl : i = .shutdown := by
      cases i <;> simp_all [Fits, Booking]
    rw [Function.update_self]
    rw [hσi] at hlookup
    exact .inl hlookup
  | abortAll =>
    obtain rfl : i = .shutdown := by
      cases i <;> simp_all [Fits, Booking]
    rw [hσi] at hlookup
    refine .inr (.inl (Finset.mem_union_right _ (Finset.mem_biUnion.mpr ⟨addr, ?_, ?_⟩)))
    · exact Finmap.mem_keys.mpr (Finmap.mem_of_lookup_eq_some hlookup)
    · exact Option.mem_toFinset.mpr hlookup
  | @stop _ other =>
    rw [hstays (by rintro rfl; simp [Fits] at hfits)]
    refine lookup_handles_of (fun hold ↦ ?_) hlookup
    by_cases haddr : addr = other
    · exact .inr (.inr ⟨by rw [haddr], rfl⟩)
    · exact .inl (by simp only [World.modifyMb_mb]; rw [Finmap.lookup_erase_ne haddr]; exact hold)

/-- The node keeps the handle of every management task that goes on. -/
theorem Sound.managed_move (h : Sound σ c) (hmove : Tends (σ i) e c.shared σ' s') {id : TaskId}
    (hσ : Function.update σ i σ' (.manager id) = .managing addr) (hid : id ∉ s'.world.aborted) :
    (handles (Function.update σ i σ' .shutdown) s').lookup addr = some id := by
  have hold : σ (.manager id) = .managing addr := by
    by_cases hi : i = .manager id
    · subst hi
      rw [Function.update_self] at hσ
      exact hmove.managing hσ
    · rwa [Function.update_of_ne (Ne.symm hi)] at hσ
  have hlookup := h.lookup_managing hold
  rcases h.lookup_handles hmove hlookup with hlookup | hmem | ⟨hi, hdone⟩
  · exact hlookup
  · exact absurd hmem hid
  · have hfits := h.fits i
    rw [hi] at hfits
    cases i with
    | manager id' =>
      obtain rfl := Option.some.inj ((h.lookup_managing hi).symm.trans hlookup)
      rw [Function.update_self, hdone] at hσ
      cases hσ
    | _ => simp [Fits, Booking] at hfits

/-- A step of the protocol keeps all that holds. -/
theorem Sound.kept (h : Sound σ c) (hmove : Tends (σ i) e c.shared σ' d.shared)
    (hallowed : Allows c.held e)
    (hheld : d.held = Function.update c.held i (heldAfter e (c.held i)))
    (hfollows : d.Follows tending (Function.update σ i σ')) (hborrowed : Borrowed d) :
    Kept (Function.update σ i σ') d := by
  refine ⟨hfollows, hheld ▸ h.exclusive.step hallowed i, hborrowed, ?_, ?_, ?_, ?_, ?_, ?_⟩
  · exact stage_update (hmove.fits (h.fits i)) fun j _ ↦ h.fits j
  · refine stage_update (Q := fun j τ ↦ Booking τ → (Lock.metalbondState, Mode.write) ∈ d.held j)
      (fun hbooking ↦ ?_) fun j hj hbooking ↦ ?_
    · rw [hheld, Function.update_self]
      rcases hmove.guard hbooking with ⟨hold, rfl⟩ | rfl
      · exact h.guarded i hold
      · exact List.mem_cons_self
    · rw [hheld, Function.update_of_ne hj]
      exact h.guarded j hbooking
  · refine stage_update (Q := fun _ τ ↦ ∀ addr, τ = .free addr → addr ∉ d.shared.world.mb.peerTasks)
      (fun addr ↦ hmove.free) fun j hj addr hσ hmem ↦ ?_
    rcases hmove.mem_peerTasks hmem with hmem | hi
    · exact h.free j addr hσ hmem
    · exact hj (h.exclusive.eq_of_write (h.guarded j (.inr ⟨addr, hσ⟩))
        (h.guarded i (.inr ⟨addr, hi⟩)))
  · intro id addr hσ hid
    exact h.managed_move hmove hσ hid
  · refine stage_update (Q := fun j τ ↦ j = .shutdown → ∀ tasks, τ = .draining tasks →
      ∀ addr, addr ∉ d.shared.world.mb.peerTasks) ?_ ?_ .shutdown rfl
    · rintro rfl tasks hσ'
      rcases hmove.draining hσ' with ⟨hσ, heq⟩ | ⟨hnone, -⟩
      · rw [heq]
        exact h.drained tasks hσ
      · exact hnone
    · rintro _ - rfl tasks hσ addr hmem
      rcases hmove.mem_peerTasks hmem with hmem | hi
      · exact h.drained tasks hσ addr hmem
      · exact h.not_booking hσ (.inr ⟨addr, hi⟩)
  · rw [hmove.isServer]
    exact h.client

theorem Sound.leaves (h : Sound σ c) (hmove : Tends (σ i) e c.shared σ' s')
    (haddr : addr ∉ handles (σ .shutdown) c.shared) (hadds : ¬ Adds addr c.shared s') :
    addr ∉ handles (Function.update σ i σ' .shutdown) s' ∧ Stays addr c.shared s' := by
  have hkeeps : addr ∉ s'.world.mb.peerTasks := by
    intro hmem
    rcases hmove.mem_peerTasks hmem with hmem | hi
    · exact haddr (h.mem_handles hmem)
    · exact hadds (hmove.adds hi)
  refine ⟨?_, hmove.stays fun hi ↦ ?_⟩
  · cases hτ : Function.update σ i σ' .shutdown with
    | draining tasks =>
      by_cases hi : i = .shutdown
      · subst hi
        rw [Function.update_self] at hτ
        rcases hmove.draining hτ with ⟨hσ, -⟩ | ⟨-, htasks⟩
        · rwa [hσ] at haddr
        · intro hmem
          refine haddr (h.mem_handles ?_)
          rwa [htasks]
      · rw [Function.update_of_ne (Ne.symm hi)] at hτ
        rwa [hτ] at haddr
    | _ => exact hkeeps
  · have hfits := h.fits i
    rw [hi] at hfits
    cases i with
    | manager id => exact haddr (Finmap.mem_of_lookup_eq_some (h.lookup_managing hi))
    | _ => simp [Fits, Booking] at hfits

end Move

theorem Kept.set (h : Kept σ d) {task : TaskId} {t : Code (Except Error Unit)} {ρ : Stage}
    {s : Node} (ht : Settles t ρ) (hρ : Fits (.manager task : Actor κ) ρ)
    (hmb : s.world.mb = d.shared.world.mb) (haborted : s.world.aborted = d.shared.world.aborted)
    (hmanaged : ∀ addr, ρ = .managing addr →
      (handles (σ .shutdown) d.shared).lookup addr = some task) :
    Kept (Function.update σ (.manager task) ρ) (d.set (.manager task) ⟨[], t⟩ s) := by
  have hshutdown : Function.update σ (.manager task) ρ .shutdown = σ .shutdown :=
    Function.update_of_ne (by simp) ..
  have hhandles : handles (σ .shutdown) s = handles (σ .shutdown) d.shared := by
    cases σ .shutdown <;> simp only [handles, hmb]
  refine ⟨h.follows.set ht s, ?_, ?_, stage_update hρ fun j _ ↦ h.fits j, ?_, ?_, ?_, ?_, ?_⟩
  · refine h.exclusive.sublist fun j ↦ ?_
    rw [Pool.held_set]
    by_cases hj : j = .manager task
    · subst hj
      rw [Function.update_self]
      exact List.nil_sublist _
    · rw [Function.update_of_ne hj]
  · rcases h.borrowed with hfree | hfree
    · exact .inl ((Pool.idle_set_of_ne _ _ _ _ (by simp)).mpr hfree)
    · exact .inr fun k ↦ (Pool.idle_set_of_ne _ _ _ _ (by simp)).mpr (hfree k)
  · refine stage_update (Q := fun j τ ↦ Booking τ →
      (Lock.metalbondState, Mode.write) ∈ (d.set (.manager task) ⟨[], t⟩ s).held j) ?_ ?_
    · rintro (rfl | ⟨addr, rfl⟩) <;> simp [Fits] at hρ
    · intro j hj hbooking
      rw [Pool.held_set, Function.update_of_ne hj]
      exact h.guarded j hbooking
  · refine stage_update (Q := fun _ τ ↦ ∀ addr, τ = .free addr → addr ∉ s.world.mb.peerTasks) ?_ ?_
    · rintro addr rfl
      simp [Fits] at hρ
    · intro j _ addr hσ
      rw [hmb]
      exact h.free j addr hσ
  · intro id addr hσ hid
    rw [Pool.shared_set, hshutdown, hhandles]
    by_cases hj : id = task
    · subst hj
      rw [Function.update_self] at hσ
      exact hmanaged addr hσ
    · rw [Function.update_of_ne (by simpa using hj)] at hσ
      rw [Pool.shared_set, haborted] at hid
      exact h.managed id addr hσ hid
  · rw [hshutdown, Pool.shared_set, hmb]
    exact h.drained
  · rw [Pool.shared_set, hmb]
    exact h.client

theorem Sound.drop (h : Sound σ c) {id : TaskId} (hid : id ∈ c.shared.world.aborted) :
    Sound σ (c.set (.manager id) ⟨[], .ret (.ok ())⟩
      { c.shared with world := dropReceivers id c.shared.world }) := by
  have hdone := h.stopped id hid
  have hkept : Kept (Function.update σ (.manager id) .done) (c.set (.manager id) ⟨[], .ret (.ok ())⟩
      { c.shared with world := dropReceivers id c.shared.world }) :=
    h.toKept.set trivial (.inl rfl) rfl rfl nofun
  rw [← hdone, Function.update_eq_self] at hkept
  exact ⟨hkept, h.stopped⟩

/-- Every step keeps all that holds, and an address without a management task is left alone
unless it is added. -/
theorem Step.sound (hstep : Step c c') (h : Sound σ c) : ∃ τ, Sound τ c' ∧
    ∀ addr, addr ∉ handles (σ .shutdown) c.shared → ¬ Adds addr c.shared c'.shared →
      addr ∉ handles (τ .shutdown) c'.shared ∧ Stays addr c.shared c'.shared := by
  have hwork : ∀ {d}, Pool.Step Work c d → Borrowed d → ∃ τ, Kept τ d ∧
      (∀ addr, addr ∉ handles (σ .shutdown) c.shared → ¬ Adds addr c.shared d.shared →
        addr ∉ handles (τ .shutdown) d.shared ∧ Stays addr c.shared d.shared) ∧
      ∀ addr, Adds addr c.shared d.shared →
        (handles (τ .shutdown) d.shared).lookup addr = some c.shared.world.spawned.length := by
    intro d hstep hborrowed
    have hstarts : ∀ i o t, tending.Idle (σ i) → Work i o t →
        ∃ σ', tending.Start (σ i) o σ' ∧ Settles t σ' := by
      intro i o t hidle hwork
      rw [hwork.stage_eq_home (h.fits i) hidle]
      exact ⟨i.home, ⟨hwork.home, rfl⟩, hwork.settles⟩
    obtain ⟨i, σ', hmove, hfollows⟩ := hstep.refines h.follows (fun _ _ _ ↦ trivial) hstarts
    obtain ⟨e, htends, hallowed, hheld⟩ := tends_of_move hmove
    have hkept := h.kept htends hallowed hheld hfollows hborrowed
    refine ⟨_, hkept, fun addr ↦ h.leaves htends, fun addr hadds ↦ ?_⟩
    obtain ⟨-, rfl, hworld⟩ := htends.of_adds hadds
    have hbooking : Booking (Function.update σ i .booking i) := .inl (Function.update_self ..)
    cases hτ : Function.update σ i .booking .shutdown with
    | draining tasks => exact absurd hbooking (hkept.not_booking hτ)
    | _ =>
      simp only [handles, hworld, spawnManager]
      exact Finmap.lookup_insert _
  cases hstep with
  | work d hstep hspawned hborrowed =>
    obtain ⟨τ, hkept, hleaves, -⟩ := hwork hstep hborrowed
    obtain ⟨τ', hsound, hshutdown⟩ := hkept.halted
    exact ⟨τ', hsound, fun addr ↦ by rw [hshutdown]; exact hleaves addr⟩
  | spawn d addr ord attempts hstep hspawned hborrowed =>
    obtain ⟨τ, hkept, hleaves, hlookup⟩ := hwork hstep hborrowed
    obtain ⟨τ', hsound, hshutdown⟩ := Kept.halted <| hkept.set
      (settles_managerCode ord c.shared.world.spawned.length addr attempts) (.inr ⟨addr, rfl⟩)
      rfl rfl fun _ heq ↦ by
        cases heq
        exact hlookup addr hspawned
    refine ⟨τ', hsound, fun other ↦ ?_⟩
    rw [hshutdown, Function.update_of_ne (by simp)]
    exact hleaves other
  | drop id hid =>
    refine ⟨σ, h.drop hid, fun addr haddr _ ↦ ⟨?_, rfl, fun _ ↦ .rfl⟩⟩
    cases hσ : σ .shutdown <;> rw [hσ] at haddr <;> exact haddr

def IsSound (c : Tasks (Actor κ)) : Prop := ∃ σ, Sound σ c

theorem isSound_run (hbegins : Begins c) (hrun : Run Step c c') : IsSound c' := by
  have hbegin : IsSound c := ⟨_, hbegins.sound⟩
  refine hrun.invariant hbegin fun d d' hsound hstep ↦ ?_
  obtain ⟨σ, hσ⟩ := hsound
  obtain ⟨τ, hτ, -⟩ := hstep.sound hσ
  exact ⟨τ, hτ⟩

variable {k : κ}

theorem Removes.spec (h : Removes k addr c c') :
    c'.shared.world = abortManager addr c.shared.world ∧ ¬ c'.Idle (.caller k) := by
  obtain ⟨ord, hcode⟩ := h.called
  have hmoved := h.moved
  have hact : ∀ {d}, Pool.Step Work c d → d.code (.caller k) ≠ c.code (.caller k) →
      d.shared.world = abortManager addr c.shared.world ∧ ¬ d.Idle (.caller k) := by
    intro d hstep hne
    rcases hstep.code (.caller k) with heq | ⟨e, hmove⟩ | ⟨o, ⟨a, ha⟩, -⟩
    · exact absurd heq hne
    · rw [hcode] at hmove
      generalize hd : d.code (.caller k) = t at hmove
      generalize hs : d.shared = s at hmove
      cases hmove with
      | act f k =>
        refine ⟨rfl, ?_⟩
        rintro ⟨a, ha⟩
        rw [hd] at ha
        cases ha
    · rw [hcode] at ha
      cases ha
  cases h.step with
  | work d hstep => exact hact (d := d) hstep hmoved
  | spawn d addr ord attempts hstep =>
    have hsame : (halted (d.set (.manager c.shared.world.spawned.length)
        ⟨[], managerCode ord c.shared.world.spawned.length addr attempts⟩ d.shared)).code
          (.caller k) = d.code (.caller k) := by
      simp [halted, Pool.code, Pool.set]
    rw [hsame] at hmoved
    obtain ⟨hworld, hbusy⟩ := hact hstep hmoved
    refine ⟨hworld, fun hidle ↦ hbusy ?_⟩
    rwa [Pool.Idle, hsame] at hidle
  | drop id hid =>
    refine absurd ?_ hmoved
    rw [Pool.code_set, Function.update_of_ne (by simp)]

theorem Removes.left (h : Removes k addr c c') (hc : IsSound c) : Left addr c.shared c' := by
  obtain ⟨σ, hσ⟩ := hc
  obtain ⟨τ, hτ, -⟩ := h.step.sound hσ
  obtain ⟨hworld, hbusy⟩ := h.spec
  have hnotMem : addr ∉ c'.shared.world.mb.peerTasks := by
    rw [hworld]
    simp only [abortManager]
    split
    · next hnone => exact Finmap.lookup_eq_none.mp hnone
    · exact Finmap.notMem_erase_self
  refine ⟨τ, hτ, ?_, ?_⟩
  · cases hshutdown : τ .shutdown with
    | draining tasks =>
      rcases hτ.borrowed with hidle | hidle
      · have hstage := hτ.follows.idle hidle
        rw [hshutdown] at hstage
        exact hstage.elim
      · exact absurd (hidle k) hbusy
    | _ => exact hnotMem
  · have hstays : Stays addr c.shared
        { c.shared with world := abortManager addr c.shared.world } :=
      (Tends.abort addr).stays nofun
    exact ⟨by rw [hworld]; exact hstays.peers, fun vni ↦ by rw [hworld]; exact hstays.subscribers vni⟩

theorem Left.run {s : Node} (h : Left addr s c)
    (hrun : Run (fun d d' ↦ Step d d' ∧ ¬ Adds addr d.shared d'.shared) c c') : Left addr s c' := by
  refine hrun.invariant h fun d d' hleft hstep ↦ ?_
  obtain ⟨σ, hσ, haddr, hstays⟩ := hleft
  obtain ⟨τ, hτ, hleaves⟩ := hstep.1.sound hσ
  obtain ⟨hnone, hsame⟩ := hleaves addr haddr hstep.2
  exact ⟨τ, hτ, hnone, hstays.trans hsame⟩

/-- Once `remove_peer` has aborted the task, whatever runs after it short of a new `add_peer`,
the removal is complete exactly when the address had no entry, as no connection to it was
handled, and no subscription, as none was left behind. -/
theorem removal_complete_iff {c₁ c₂ c₃ : Tasks (Actor κ)} (hbegins : Begins c) (hrun : Run Step c c₁)
    (hremoves : Removes k addr c₁ c₂)
    (hafter : Run (fun d d' ↦ Step d d' ∧ ¬ Adds addr d.shared d'.shared) c₂ c₃) :
    Complete addr c₃.shared ↔ addr ∉ c₁.shared.world.mb.peers ∧
      ∀ vni, addr ∉ valueAt c₁.shared.world.mb.subscribers vni :=
  ((hremoves.left (isSound_run hbegins hrun)).run hafter).complete_iff

end Sound

section Runs

variable {c c' : Tasks (Actor Unit)} {i : Actor Unit} {addr : SocketAddr}

structure Undisturbed (i : Actor Unit) (c : Tasks (Actor Unit)) : Prop where
  unguarded : ∀ j, j ≠ i → c.held j = []
  running : c.Idle .shutdown
  stopped : ∀ id ∈ c.shared.world.aborted, c.code (.manager id) = .ret (.ok ())

def SameManagers (s s' : Node) : Prop :=
  s'.world.spawned = s.world.spawned ∧ s'.world.aborted = s.world.aborted

instance : Std.Refl SameManagers := ⟨fun _ ↦ ⟨rfl, rfl⟩⟩

theorem halted_eq_self (h : ∀ id ∈ c.shared.world.aborted, c.code (.manager id) = .ret (.ok ())) :
    halted c = c := by
  have hprocs : (halted c).procs = c.procs := by
    funext i
    cases i with
    | manager id =>
      by_cases hid : id ∈ c.shared.world.aborted
      · refine (if_pos hid).trans ?_
        rw [← h id hid]
        rfl
      · exact if_neg hid
    | _ => rfl
  exact congrArg (fun f ↦ (⟨f, c.shared⟩ : Tasks (Actor Unit))) hprocs

def Runs (i : Actor Unit) (s : Node) : Prop :=
  i ≠ .shutdown ∧ ∀ id ∈ s.world.aborted, i ≠ .manager id

variable (addr) in
theorem step_alone (hi : Runs i c.shared) (h : Undisturbed i c) (hstep : Pool.Step Work c c')
    (hapart : Pool.Apart i c c') (hsame : SameManagers c.shared c'.shared) :
    Undisturbed i c' ∧ Step c c' ∧ ¬ Adds addr c.shared c'.shared := by
  have hidle : c'.Idle .shutdown := by
    rw [Pool.Idle, Pool.code, hapart .shutdown hi.1.symm]
    exact h.running
  have hstopped : ∀ id ∈ c'.shared.world.aborted, c'.code (.manager id) = .ret (.ok ()) := by
    intro id hid
    rw [hsame.2] at hid
    rw [Pool.code, hapart _ (hi.2 id hid).symm]
    exact h.stopped id hid
  refine ⟨⟨fun j hj ↦ ?_, hidle, hstopped⟩, ?_, fun hadds ↦ ?_⟩
  · rw [Pool.held, hapart j hj]
    exact h.unguarded j hj
  · have hwork := Step.work c' hstep hsame.1 (.inl hidle)
    rwa [halted_eq_self hstopped] at hwork
  · rw [Adds, hsame.1] at hadds
    simp at hadds

variable (addr) in
/-- A task may run alone as far as it neither spawns nor aborts. -/
theorem run_code (hi : Runs i c.shared) (h : Undisturbed i c) {held' : List (Guard Lock)}
    {β : Type} {t : Code β} {g : β → Code (Except Error Unit)} {b : β} {s : Node}
    (hcode : c.code i = t >>= g) (ht : Confined SameManagers t)
    (hexec : exec (c.held i) t c.shared = .done b held' s) :
    Run (fun d d' ↦ Step d d' ∧ ¬ Adds addr d.shared d'.shared) c (c.set i ⟨held', g b⟩ s) := by
  have hrun := @Pool.run_alone _ _ _ _ _ _ _ Work c i (c.held i) held' c.shared s _ SameManagers
    _ t g b h.unguarded ht hexec
  rw [← hcode, Pool.set_eq_self] at hrun
  have hkeeps : ∀ d d', Runs i d.shared ∧ Undisturbed i d →
      (Pool.Step Work d d' ∧ Pool.Apart i d d') ∧ SameManagers d.shared d'.shared →
      Runs i d'.shared ∧ Undisturbed i d' := by
    intro d d' hd hstep
    refine ⟨?_, (step_alone addr hd.1 hd.2 hstep.1.1 hstep.1.2 hstep.2).1⟩
    rw [Runs, hstep.2.2]
    exact hd.1
  refine (hrun.along ⟨hi, h⟩ hkeeps).mono fun d d' hd ↦ ?_
  exact (step_alone addr hd.2.1 hd.2.2 hd.1.1.1 hd.1.1.2 hd.1.2).2

theorem Undisturbed.set (h : Undisturbed i c) (hi : Runs i c.shared) {s : Node}
    (hsame : SameManagers c.shared s) (p : Proc Lock World InternalUpdate (Except Error Unit)) :
    Undisturbed i (c.set i p s) := by
  refine ⟨fun j hj ↦ ?_, ?_, fun id hid ↦ ?_⟩
  · rw [Pool.held_set, Function.update_of_ne hj]
    exact h.unguarded j hj
  · exact (Pool.idle_set_of_ne _ _ _ _ hi.1.symm).mpr h.running
  · rw [Pool.shared_set, hsame.2] at hid
    rw [Pool.code_set, Function.update_of_ne (hi.2 id hid).symm]
    exact h.stopped id hid

def removed (ord : HashOrder) (addr : SocketAddr) : Code (Except Error Unit) := do
  modify (shutdownPeer addr)
  let removed ← Peer.removeRoutesFromPeer ord addr
  Peer.sendRemovals addr removed
  release .metalbondState .write
  return .ok ()

theorem ends_removed (ord : HashOrder) (addr : SocketAddr) :
    Ends [(.metalbondState, .write)] [] (removed ord addr) := by
  have hsends : ∀ routes, Ends [(.metalbondState, .write)] [(.metalbondState, .write)]
      (Peer.sendRemovals addr routes) :=
    fun routes s ↦ ⟨(), _, Peer.exec_sendRemovals _ s addr routes⟩
  refine .bind (.modify _) fun _ ↦ .bind (.update _) fun routes ↦ ?_
  exact .bind (hsends routes) fun _ ↦ .bind (.release _ _) fun _ ↦ .ret _

theorem sameManagers_removed (ord : HashOrder) (addr : SocketAddr) :
    Confined SameManagers (removed ord addr) := by
  have hsends : ∀ routes, Confined SameManagers (Peer.sendRemovals addr routes) := by
    intro routes
    induction routes with
    | nil => exact .ret ()
    | cons r rest ih => exact .bind (.sendOn fun _ ↦ ⟨rfl, rfl⟩) fun _ ↦ ih
  refine .bind (.modify fun s ↦ ?_) fun _ ↦ .bind (.update fun _ ↦ ⟨rfl, rfl⟩) fun routes ↦ ?_
  · unfold shutdownPeer
    split <;> exact ⟨rfl, rfl⟩
  · exact .bind (hsends routes) fun _ ↦ .bind (.release ..) fun _ ↦ .ret _

/-- While nothing else runs, a call of `remove_peer` returns. -/
theorem exists_removal (addr : SocketAddr) (h : Undisturbed (.caller ()) c)
    (hheld : c.held (.caller ()) = []) (hidle : c.Idle (.caller ())) :
    ∃ c₁ c₂ c₃, Run Step c c₁ ∧ c₁.shared = c.shared ∧ Removes () addr c₁ c₂ ∧
      Run (fun d d' ↦ Step d d' ∧ ¬ Adds addr d.shared d'.shared) c₂ c₃ ∧ c₃.Idle (.caller ()) := by
  have hruns : ∀ s, Runs (.caller ()) s := fun s ↦ ⟨by simp, fun _ _ ↦ by simp⟩
  let parse : String → Option SocketAddr := fun _ ↦ some addr
  let c₀ := c.set (.caller ()) ⟨[], removePeer parse default ""⟩ c.shared
  let c₁ := c₀.set (.caller ()) ⟨[(.metalbondState, .write)], removing default addr⟩ c.shared
  let s₂ := { c.shared with world := abortManager addr c.shared.world }
  let d := c₀.set (.caller ()) ⟨[(.metalbondState, .write)], removed default addr⟩ s₂
  have hstart : Pool.Step Work c c₀ := by
    have hfirst := Pool.Step.start _ _ hidle (Work.call () (.removePeer parse default ""))
    rwa [hheld] at hfirst
  have h₀ : Undisturbed (.caller ()) c₀ := h.set (hruns _) (Std.Refl.refl _) _
  have hparse : parse "" = some addr := rfl
  have hcode₀ : c₀.code (.caller ()) = acquire .metalbondState .write >>= fun _ ↦
      removing default addr := by
    rw [Pool.code_set, Function.update_self]
    exact removePeer_eq hparse default
  have hexec₀ : exec (c₀.held (.caller ())) (acquire .metalbondState .write) c₀.shared =
      .done () [(.metalbondState, .write)] c.shared := by
    rw [Pool.held_set, Function.update_self]
    rfl
  have hlock := run_code addr (hruns _) h₀ hcode₀ (.acquire ..) hexec₀
  have h₁ : Undisturbed (.caller ()) c₁ := h₀.set (hruns _) (Std.Refl.refl _) _
  have habort : Pool.Step Work c₁ d :=
    Pool.step_act h₀.unguarded (abortManager addr) fun _ ↦ removed default addr
  have hspawned : d.shared.world.spawned = c₁.shared.world.spawned := by
    change (abortManager addr c.shared.world).spawned = c.shared.world.spawned
    unfold abortManager
    split <;> rfl
  have hrunning : d.Idle .shutdown := (Pool.idle_set_of_ne _ _ _ _ (by simp)).mpr h₀.running
  have hcode₁ : c₁.code (.caller ()) = removing default addr := by
    rw [Pool.code_set, Function.update_self]
  have hcode₂ : (halted d).code (.caller ()) = removed default addr := by
    change d.code (.caller ()) = _
    rw [Pool.code_set, Function.update_self]
  have hheld₂ : ∀ j, (halted d).held j = d.held j := by
    rintro (_ | _ | _ | id) <;> simp only [Pool.held, halted]
    split <;> rfl
  have hremoves : Removes () addr c₁ (halted d) := by
    refine ⟨.work d habort hspawned (.inl hrunning), ⟨default, hcode₁⟩, ?_⟩
    rw [hcode₁, hcode₂]
    exact Task.ne_act (abortManager addr) (fun _ ↦ removed default addr) c.shared.world
  have h₂ : Undisturbed (.caller ()) (halted d) := by
    refine ⟨fun j hj ↦ ?_, hrunning, fun id hid ↦ ?_⟩
    · rw [hheld₂, Pool.held_set, Function.update_of_ne hj]
      exact h₀.unguarded j hj
    · have haborted : id ∈ d.shared.world.aborted := hid
      simp only [Pool.code, halted, haborted, if_true]
  obtain ⟨r, s₃, hexec⟩ := ends_removed default addr s₂
  have hheld : (halted d).held (.caller ()) = [(.metalbondState, .write)] := by
    rw [hheld₂, Pool.held_set, Function.update_self]
  have hrest : Run (fun d d' ↦ Step d d' ∧ ¬ Adds addr d.shared d'.shared) (halted d)
      ((halted d).set (.caller ()) ⟨[], .ret r⟩ s₃) := by
    refine run_code addr (g := .ret) (hruns _) h₂ ?_ (sameManagers_removed default addr) ?_
    · rw [hcode₂, bind_ret]
    · rw [hheld]
      exact hexec
  have hcall : Step c c₀ := by
    have hwork := Step.work c₀ hstart rfl (.inl h₀.running)
    rwa [halted_eq_self h₀.stopped] at hwork
  refine ⟨c₁, halted d, _, .cons hcall (hlock.mono fun _ _ h ↦ h.1), rfl, hremoves, hrest, ⟨r, ?_⟩⟩
  rw [Pool.code_set, Function.update_self]

theorem sameManagers_managerCode (ord : HashOrder) (task : TaskId) (addr : SocketAddr)
    (attempts : List Attempt) : Confined SameManagers (managerCode ord task addr attempts) := by
  have hminds : ∀ {α : Type} {t : Code α}, Confined (Minds addr) t → Confined SameManagers t :=
    fun h ↦ h.mono fun _ _ h ↦ ⟨h.tasks.spawned, h.tasks.aborted⟩
  have hstop : Confined SameManagers (stopManaging addr) :=
    .bind (.writing fun _ ↦ ⟨rfl, rfl⟩) fun _ ↦ .ret _
  have hretry : ∀ config pause next, Confined SameManagers next →
      Confined SameManagers (retry config addr pause next) := by
    intro config pause next hnext
    unfold retry
    split
    · exact .ret _
    · cases pause with
      | shutdown => exact hstop
      | slept => exact hnext
      | waiting => exact .ret _
  have hattempts : ∀ config n, Confined SameManagers
      (manageAttempts ord task config addr n attempts) := by
    intro config
    induction attempts with
    | nil => exact fun _ ↦ .ret _
    | cons attempt rest ih =>
      intro n
      cases attempt with
      | shutdown => exact hstop
      | failed pause => exact hretry config pause _ (ih (n + 1))
      | connected rounds pause =>
        let peer := outgoingPeer task config addr n
        refine .bind (hminds (minds_create peer)) fun _ ↦ ?_
        refine .bind (hminds (minds_insertPeer peer)) fun _ ↦ ?_
        refine .bind (hminds (minds_handlePeer ord peer rounds)) fun progress ↦ ?_
        cases progress with
        | returned =>
          refine .bind (hminds (minds_erasePeer addr)) fun _ ↦ ?_
          refine .bind (hminds (minds_currentState addr)) fun state ↦ ?_
          split
          · exact hstop
          · exact hretry config pause _ (ih (n + 1))
        | panicked => exact .ret _
        | waiting => exact .ret _
  refine .bind (.bind (.reading ..) fun config ↦ .bind (.reading ..) fun _ ↦ ?_) fun _ ↦ .ret _
  exact hattempts config 0

end Runs

namespace Sample

open MetalBond.Sample

def client : Tasks (Actor Unit) := tasks (Actor Unit) (node false)

def added : Node := { node false with world := spawnManager (addr 1) (node false).world }

structure Added (attempts : List Attempt) (c : Tasks (Actor Unit)) : Prop where
  run : Run Step client c
  unguarded : ∀ i, c.held i = []
  idle : ∀ i, i ≠ .manager 0 → c.Idle i
  code : c.code (.manager 0) = managerCode default 0 (addr 1) attempts
  shared : c.shared = added

theorem begins_client : Begins client := ⟨idle_tasks _, fun _ ↦ rfl, ⟨default, rfl⟩⟩

def booking : Code (Except Error Unit) := do
  acquire .metalbondState .write
  let known ← gets fun w ↦ decide (addr 1 ∈ w.mb.peers ∨ addr 1 ∈ w.mb.peerTasks)
  if known then
    release .metalbondState .write
    return .error (.alreadyAdded (addr 1))
  else
    modify (spawnManager (addr 1))
    release .metalbondState .write
    return .ok ()

def booked : Code (Except Error Unit) := do
  release .metalbondState .write
  return .ok ()

theorem exists_added (attempts : List Attempt) : ∃ c, Added attempts c := by
  let guard : Guard Lock := (.metalbondState, .write)
  let parse : String → Option SocketAddr := fun _ ↦ some (addr 1)
  let manager : Code (Except Error Unit) := managerCode default 0 (addr 1) attempts
  let c₀ := client.set (.caller ()) ⟨[], addPeer parse ""⟩ (node false)
  let c₁ := c₀.set (.caller ()) ⟨[], booking⟩ (node false)
  let c₂ := c₁.set (.caller ()) ⟨[guard], do modify (spawnManager (addr 1)); booked⟩ (node false)
  let d := c₁.set (.caller ()) ⟨[guard], booked⟩ added
  let c₃ := d.set (.manager 0) ⟨[], manager⟩ added
  have hruns : ∀ s, Runs (.caller ()) s := fun s ↦ ⟨by simp, fun _ _ ↦ by simp⟩
  have hclient : Undisturbed (.caller ()) client :=
    ⟨fun _ _ ↦ rfl, idle_tasks _ _, fun _ h ↦ absurd h (Finset.notMem_empty _)⟩
  have hstart : Pool.Step Work client c₀ :=
    Pool.Step.start _ _ (idle_tasks _ _) (Work.call () (.addPeer parse ""))
  obtain ⟨h₀, hcall, -⟩ := step_alone (addr 1) (hruns _) hclient hstart
    (fun j hj ↦ by simp [c₀, Pool.set, hj]) (Std.Refl.refl _)
  have hread : Run (fun d d' ↦ Step d d' ∧ ¬ Adds (addr 1) d.shared d'.shared) c₀ c₁ :=
    run_code (addr 1)
      (g := fun isServer ↦ if isServer then .ret (.error .addPeerInServerMode) else booking)
      (hruns _) h₀ (t := reading .metalbondState fun w ↦ w.mb.isServer) rfl (.reading ..) rfl
  have h₁ : Undisturbed (.caller ()) c₁ := h₀.set (hruns _) (Std.Refl.refl _) _
  have hbook : Run (fun d d' ↦ Step d d' ∧ ¬ Adds (addr 1) d.shared d'.shared) c₁ c₂ := by
    refine run_code (addr 1) (hruns _) h₁ (b := false) (t := do
        acquire .metalbondState .write
        gets fun w ↦ decide (addr 1 ∈ w.mb.peers ∨ addr 1 ∈ w.mb.peerTasks))
      (g := fun known ↦ if known then do
          release .metalbondState .write
          return .error (.alreadyAdded (addr 1))
        else do
          modify (spawnManager (addr 1))
          booked) rfl (.bind (.acquire ..) fun _ ↦ .gets _) ?_
    rfl
  have hspawn : Step c₂ (halted c₃) := by
    have hstep : Pool.Step Work c₂ d :=
      Pool.step_act h₁.unguarded (spawnManager (addr 1)) fun _ ↦ booked
    have hrunning : d.Idle .shutdown := h₁.running
    exact .spawn d (addr 1) default attempts hstep rfl (.inl hrunning)
  have h₃ : Undisturbed (.caller ()) c₃ := by
    refine ⟨fun j hj ↦ ?_, h₁.running, fun _ h ↦ absurd h (Finset.notMem_empty _)⟩
    rw [Pool.held_set, Pool.held_set]
    by_cases hmanager : j = .manager 0
    · rw [hmanager, Function.update_self]
    · rw [Function.update_of_ne hmanager, Function.update_of_ne hj]
      exact h₁.unguarded j hj
  have hheld : c₃.held (.caller ()) = [guard] := rfl
  have hrelease : Run (fun d d' ↦ Step d d' ∧ ¬ Adds (addr 1) d.shared d'.shared) c₃
      (c₃.set (.caller ()) ⟨[], .ret (.ok ())⟩ added) :=
    run_code (addr 1) (hruns _) h₃ (t := release .metalbondState .write) (b := ())
      (g := fun _ ↦ .ret (.ok ())) rfl (.release ..) rfl
  rw [halted_eq_self h₃.stopped] at hspawn
  have hsteps : ∀ {c c' : Tasks (Actor Unit)},
      Run (fun d d' ↦ Step d d' ∧ ¬ Adds (addr 1) d.shared d'.shared) c c' → Run Step c c' :=
    fun hrun ↦ hrun.mono fun _ _ h ↦ h.1
  refine ⟨c₃.set (.caller ()) ⟨[], .ret (.ok ())⟩ added, ⟨?_, fun i ↦ ?_, fun i hi ↦ ?_, rfl, rfl⟩⟩
  · have hend : Run Step c₂ _ := .cons hspawn (hsteps hrelease)
    exact .cons hcall ((hsteps hread).trans ((hsteps hbook).trans hend))
  · rw [Pool.held_set]
    by_cases hcaller : i = .caller ()
    · rw [hcaller, Function.update_self]
    · rw [Function.update_of_ne hcaller]
      exact h₃.unguarded i hcaller
  · rcases i with _ | _ | _ | id
    · exact ⟨_, rfl⟩
    · exact ⟨_, rfl⟩
    · exact ⟨_, rfl⟩
    · have hid : id ≠ 0 := fun h ↦ hi (by rw [h])
      refine ⟨.ok (), ?_⟩
      simp [c₃, d, c₁, c₀, client, tasks, Pool.code, Pool.set, hid]

def attempt : List Attempt := [.connected [] .waiting]

theorem Added.undisturbed {attempts : List Attempt} {c : Tasks (Actor Unit)}
    (h : Added attempts c) (i : Actor Unit) : Undisturbed i c :=
  ⟨fun j _ ↦ h.unguarded j, h.idle _ (by simp), fun id hid ↦ by
    rw [h.shared] at hid
    exact absurd hid (Finset.notMem_empty id)⟩

/-- The address was added, and its task has not connected when it is removed. -/
theorem removal_complete_iff_connecting : ∃ c₁ c₂ c₃ : Tasks (Actor Unit), Run Step client c₁ ∧
    Removes () (addr 1) c₁ c₂ ∧
    Run (fun d d' ↦ Step d d' ∧ ¬ Adds (addr 1) d.shared d'.shared) c₂ c₃ ∧
    c₃.Idle (.caller ()) ∧ Complete (addr 1) c₃.shared := by
  obtain ⟨c, hadded⟩ := exists_added attempt
  obtain ⟨c₁, c₂, c₃, hrun, hshared, hremoves, hafter, hidle⟩ := exists_removal (addr 1)
    (hadded.undisturbed _) (hadded.unguarded _) (hadded.idle _ (by simp))
  refine ⟨c₁, c₂, c₃, hadded.run.trans hrun, hremoves, hafter, hidle, ?_⟩
  refine (removal_complete_iff begins_client (hadded.run.trans hrun) hremoves hafter).mpr ?_
  rw [hshared, hadded.shared]
  exact ⟨Finmap.notMem_empty, fun _ ↦ by simp [added, node, spawnManager, MetalBondState.new]⟩

def server : Peer := outgoingPeer 0 default (addr 1) 0

theorem exec_managerCode : ∃ s, exec [] (managerCode default 0 (addr 1) attempt) added =
    .done (.ok ()) [] s ∧ s.world.mb.peers.lookup (addr 1) = some server ∧
      s.world.aborted = ∅ :=
  ⟨_, rfl, Finmap.lookup_insert _, rfl⟩

/-- While `handle_peer` runs, the removal leaves the entry behind, and nothing clears it. -/
theorem removed_while_connected : ∃ c₁ c₂ c₃ : Tasks (Actor Unit), Run Step client c₁ ∧
    Removes () (addr 1) c₁ c₂ ∧
    Run (fun d d' ↦ Step d d' ∧ ¬ Adds (addr 1) d.shared d'.shared) c₂ c₃ ∧
    c₃.Idle (.caller ()) ∧ addr 1 ∈ c₃.shared.world.mb.peers ∧ ¬ Complete (addr 1) c₃.shared := by
  obtain ⟨c, hadded⟩ := exists_added attempt
  obtain ⟨s, hexec, hpeers, haborted⟩ := exec_managerCode
  have hruns : Runs (.manager 0) c.shared := by
    rw [hadded.shared]
    exact ⟨by simp, fun _ h ↦ absurd h (Finset.notMem_empty _)⟩
  have hcode : c.code (.manager 0) = managerCode default 0 (addr 1) attempt >>= .ret := by
    rw [hadded.code, bind_ret]
  have hexec' : exec (c.held (.manager 0)) (managerCode default 0 (addr 1) attempt) c.shared =
      .done (.ok ()) [] s := by
    rw [hadded.unguarded, hadded.shared]
    exact hexec
  have hmanage := run_code (addr 1) hruns (hadded.undisturbed _) hcode
    (sameManagers_managerCode ..) hexec'
  let d := c.set (.manager 0) ⟨[], .ret (.ok ())⟩ s
  have hheld : ∀ i, d.held i = [] := Pool.unguarded_set hadded.unguarded _ _ _
  have hidle : ∀ i, i ≠ .manager 0 → d.Idle i := by
    intro i hi
    exact (Pool.idle_set_of_ne _ _ _ _ hi).mpr (hadded.idle i hi)
  have hd : Undisturbed (.caller ()) d := by
    refine ⟨fun j _ ↦ hheld j, hidle _ (by simp), fun id hid ↦ ?_⟩
    rw [Pool.shared_set, haborted] at hid
    exact absurd hid (Finset.notMem_empty id)
  obtain ⟨c₁, c₂, c₃, hrun, hshared, hremoves, hafter, hcaller⟩ :=
    exists_removal (addr 1) hd (hheld _) (hidle _ (by simp))
  have hrun' : Run Step client c₁ := (hadded.run.trans (hmanage.mono fun _ _ h ↦ h.1)).trans hrun
  have hleft := (hremoves.left (isSound_run begins_client hrun')).run hafter
  have hstays : c₃.shared.world.mb.peers.lookup (addr 1) = some server := by
    obtain ⟨σ, -, -, hstays⟩ := hleft
    rw [hstays.peers, hshared]
    exact hpeers
  have hmem := Finmap.mem_of_lookup_eq_some hstays
  exact ⟨c₁, c₂, c₃, hrun', hremoves, hafter, hcaller, hmem, fun h ↦ h.peers hmem⟩

end Sample

end MetalBond.PeerRemoval
