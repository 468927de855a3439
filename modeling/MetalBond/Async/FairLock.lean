import MetalBond.Async.Interleave
import Mathlib.Data.List.TakeWhile

namespace Async

variable {ι L W U α β : Type}

namespace Task

def Avoids (l : L) : Task L W U α → Prop
  | ret _ => True
  | act _ k => ∀ w, Avoids l (k w)
  | lock l' _ k => l' ≠ l ∧ Avoids l k
  | unlock _ _ k => Avoids l k
  | send _ k => ∀ b, Avoids l (k b)

/-- The task asks for its read guard of the lock first, and never again. -/
def Enters (l : L) (t : Task L W U α) : Prop := ∃ k, t = .lock l .read k ∧ Avoids l k

namespace Avoids

variable {l : L} {t : Task L W U α} {g : α → Task L W U β}

theorem ret (a : α) : Avoids l (.ret a : Task L W U α) := trivial

theorem bind (h : Avoids l t) (hg : ∀ a, Avoids l (g a)) : Avoids l (t >>= g) := by
  induction t with
  | ret a => exact hg a
  | act f k ih => exact fun w ↦ ih w (h w)
  | lock l' m k ih => exact ⟨h.1, ih h.2⟩
  | unlock l' m k ih => exact ih h
  | send u k ih => exact fun b ↦ ih b (h b)

theorem gets (f : W → α) : Avoids l (gets f : Task L W U α) := fun _ ↦ trivial

theorem update (f : W → α × W) : Avoids l (update f : Task L W U α) := fun _ ↦ trivial

theorem sendOn (u : U) : Avoids l (sendOn u : Task L W U Bool) := fun _ ↦ trivial

theorem release (l' : L) (m : Mode) : Avoids l (release l' m : Task L W U Unit) := trivial

theorem reading {l' : L} (h : l' ≠ l) (f : W → α) : Avoids l (reading l' f : Task L W U α) :=
  ⟨h, fun _ ↦ trivial⟩

end Avoids

theorem avoids_of_move {l : L} {t t' : Task L W U α} {s s' : Shared W U}
    {e : Option (LockEvent L)} (h : Enters l t ∨ Avoids l t) (hmove : Move t s e t' s') :
    Avoids l t' := by
  rcases h with ⟨k, rfl, hk⟩ | h
  · cases hmove
    exact hk
  · cases hmove with
    | act f k => exact h _
    | lock l' m k => exact h.2
    | unlock l' m k => exact h
    | send u k => exact h _

end Task

section Ahead

variable [DecidableEq ι] {A : Type} (d : ι)

def ahead (requests : List (ι × A)) : List (ι × A) :=
  requests.takeWhile fun r ↦ decide (r.1 ≠ d)

variable {d} {before after requests : List (ι × A)} {r x : ι × A}

theorem mem_ahead_append (h : r ∈ ahead d (requests ++ [x])) :
    r ∈ ahead d requests ∨ r = x ∧ ∀ y ∈ requests, y.1 ≠ d := by
  induction requests with
  | nil =>
    have hmem := (List.takeWhile_prefix _).subset h
    exact Or.inr ⟨List.mem_singleton.mp hmem, nofun⟩
  | cons y requests ih =>
    by_cases hy : y.1 = d
    · simp [ahead, hy] at h
    · have hrest : r = y ∨ r ∈ ahead d (requests ++ [x]) := by simpa [ahead, hy] using h
      rcases hrest with rfl | hrest
      · exact Or.inl (by simp [ahead, hy])
      · rcases ih hrest with hold | ⟨rfl, hnone⟩
        · exact Or.inl (by simpa [ahead, hy] using Or.inr hold)
        · refine Or.inr ⟨rfl, fun z hz ↦ ?_⟩
          rcases List.mem_cons.mp hz with rfl | hz
          · exact hy
          · exact hnone z hz

theorem mem_ahead_insert (hx : x.1 ≠ d) (h : r ∈ ahead d (before ++ after)) :
    r ∈ ahead d (before ++ x :: after) := by
  induction before with
  | nil =>
    have hrest : r = x ∨ r ∈ ahead d after := Or.inr h
    simpa [ahead, hx] using hrest
  | cons y before ih =>
    by_cases hy : y.1 = d
    · simp [ahead, hy] at h
    · have hrest : r = y ∨ r ∈ ahead d (before ++ after) := by simpa [ahead, hy] using h
      have hnext : r = y ∨ r ∈ ahead d (before ++ x :: after) := hrest.imp_right ih
      simpa [ahead, hy] using hnext

theorem mem_ahead_of_before (hx : x.1 ≠ d) (h : ∀ y ∈ before, y.1 ≠ d) :
    x ∈ ahead d (before ++ x :: after) := by
  induction before with
  | nil => simp [ahead, hx]
  | cons y before ih =>
    have hy := h y List.mem_cons_self
    have hrest := ih fun z hz ↦ h z (List.mem_cons_of_mem y hz)
    have hnext : x = y ∨ x ∈ ahead d (before ++ x :: after) := Or.inr hrest
    simpa [ahead, hy] using hnext

end Ahead

/-- A pool whose locks are granted in the order of the requests, and whose channel holds so
few messages that senders wait for a slot, in their order too. -/
structure FairPool (ι L W U α : Type) extends Pool ι L W U α where
  requests : List (ι × Guard L)
  senders : List ι

namespace FairPool

/-- Like a step of the pool, but a request for a lock and the offer of a message come first. -/
inductive Step [DecidableEq ι] [DecidableEq L] (capacity : ℕ)
    (Starts : ι → Option U → Task L W U α → Prop) (c : FairPool ι L W U α) :
    FairPool ι L W U α → Prop
  | act (i : ι) (f : W → W) (k : W → Task L W U α) (hcode : c.code i = .act f k) :
    Step capacity Starts c ⟨c.set i ⟨c.held i, k c.shared.world⟩
      { c.shared with world := f c.shared.world }, c.requests, c.senders⟩
  | unlock (i : ι) (l : L) (m : Mode) (k : Task L W U α) (hcode : c.code i = .unlock l m k) :
    Step capacity Starts c
      ⟨c.set i ⟨(c.held i).erase (l, m), k⟩ c.shared, c.requests, c.senders⟩
  | request (i : ι) (l : L) (m : Mode) (k : Task L W U α) (hcode : c.code i = .lock l m k)
    (hnew : ∀ g, (i, g) ∉ c.requests) :
    Step capacity Starts c ⟨c.toPool, c.requests ++ [(i, l, m)], c.senders⟩
  /-- The first request for a lock is granted when no guard excludes it. -/
  | grant (i : ι) (l : L) (m : Mode) (k : Task L W U α) (before after : List (ι × Guard L))
    (hcode : c.code i = .lock l m k) (hrequests : c.requests = before ++ (i, l, m) :: after)
    (hfirst : ∀ r ∈ before, r.2.1 ≠ l) (hfree : ∀ j, clashes (c.held j) l m = false) :
    Step capacity Starts c
      ⟨c.set i ⟨(l, m) :: c.held i, k⟩ c.shared, before ++ after, c.senders⟩
  | offer (i : ι) (u : U) (k : Bool → Task L W U α) (hcode : c.code i = .send u k)
    (hnew : i ∉ c.senders) :
    Step capacity Starts c ⟨c.toPool, c.requests, c.senders ++ [i]⟩
  /-- The first sender gets the next free slot. -/
  | deliver (i : ι) (u : U) (k : Bool → Task L W U α) (rest : List ι)
    (hcode : c.code i = .send u k) (hsenders : c.senders = i :: rest)
    (hroom : c.shared.chan.closed = true ∨ c.shared.chan.queue.length < capacity) :
    Step capacity Starts c ⟨c.set i ⟨c.held i, k (c.shared.chan.send u).1⟩
      { c.shared with chan := (c.shared.chan.send u).2 }, c.requests, rest⟩
  | start (i : ι) (t : Task L W U α) (hidle : c.Idle i) (h : Starts i none t) :
    Step capacity Starts c ⟨c.set i ⟨c.held i, t⟩ c.shared, c.requests, c.senders⟩
  | receive (i : ι) (u : U) (ch : Channel U) (t : Task L W U α) (hidle : c.Idle i)
    (hrecv : c.shared.chan.recv = some (u, ch)) (h : Starts i (some u) t) :
    Step capacity Starts c
      ⟨c.set i ⟨c.held i, t⟩ { c.shared with chan := ch }, c.requests, c.senders⟩

variable [DecidableEq ι] [DecidableEq L] {capacity : ℕ}
variable {Starts : ι → Option U → Task L W U α → Prop} {c c' : FairPool ι L W U α}

theorem length_queue_exec (held : List (Guard L)) (t : Task L W U β) (s : Shared W U) :
    s.chan.queue.length ≤ (Task.exec held t s).shared.chan.queue.length := by
  induction t generalizing held s with
  | ret b => exact le_refl _
  | act f k ih => exact ih _ held { s with world := f s.world }
  | lock l m k ih =>
    rw [Task.exec]
    split
    · exact le_refl _
    · exact ih _ s
  | unlock l m k ih => exact ih _ s
  | send u k ih =>
    have hgrows : s.chan.queue.length ≤ (s.chan.send u).2.queue.length := by
      unfold Channel.send
      split <;> simp
    exact hgrows.trans (ih _ held { s with chan := (s.chan.send u).2 })

section Alone

variable {p : Pool ι L W U α} {i : ι} {held held' : List (Guard L)} {s s' : Shared W U}
variable {requests : List (ι × Guard L)} {t : Task L W U β} {g : β → Task L W U α} {b : β}

theorem step_lock {l : L} {m : Mode} {k : Task L W U α} (hothers : ∀ j, j ≠ i → p.held j = [])
    (hrequests : ∀ r ∈ requests, r.1 ≠ i ∧ r.2.1 ≠ l) (hown : clashes held l m = false) :
    ∃ d : FairPool ι L W U α, d.shared = s ∧ d.senders = [] ∧
      Step capacity Starts ⟨p.set i ⟨held, .lock l m k⟩ s, requests, []⟩ d ∧
      Step capacity Starts d ⟨p.set i ⟨(l, m) :: held, k⟩ s, requests, []⟩ := by
  have hnew : ∀ g, (i, g) ∉ requests := fun g hg ↦ (hrequests _ hg).1 rfl
  have hfree : ∀ j, clashes ((p.set i ⟨held, .lock l m k⟩ s).held j) l m = false := by
    intro j
    rw [Pool.held_set]
    by_cases hj : j = i
    · subst hj
      rwa [Function.update_self]
    · rw [Function.update_of_ne hj, hothers j hj, clashes_nil]
  refine ⟨⟨p.set i ⟨held, .lock l m k⟩ s, requests ++ [(i, l, m)], []⟩, rfl, rfl,
    .request i l m k (by simp) hnew, ?_⟩
  have hgrant := @Step.grant _ _ _ _ _ _ _ capacity Starts
    ⟨p.set i ⟨held, .lock l m k⟩ s, requests ++ [(i, l, m)], []⟩ i l m k requests []
    (by simp) rfl (fun r hr ↦ (hrequests r hr).2) hfree
  simpa using hgrant

theorem step_send {u : U} {k : Bool → Task L W U α} (hroom : s.chan.queue.length < capacity) :
    ∃ d : FairPool ι L W U α, d.shared = s ∧ d.senders = [i] ∧
      Step capacity Starts ⟨p.set i ⟨held, .send u k⟩ s, requests, []⟩ d ∧
      Step capacity Starts d ⟨p.set i ⟨held, k (s.chan.send u).1⟩
        { s with chan := (s.chan.send u).2 }, requests, []⟩ := by
  refine ⟨⟨p.set i ⟨held, .send u k⟩ s, requests, [i]⟩, rfl, rfl,
    .offer i u k (by simp) List.not_mem_nil, ?_⟩
  have hdeliver := @Step.deliver _ _ _ _ _ _ _ capacity Starts
    ⟨p.set i ⟨held, .send u k⟩ s, requests, [i]⟩ i u k [] (by simp) rfl (Or.inr hroom)
  simpa using hdeliver

/-- While the others hold no guards and wait for other locks, a task may run on as if it were
alone, as long as the queue has room for what it sends. -/
theorem run_alone (hothers : ∀ j, j ≠ i → p.held j = [])
    (hrequests : ∀ r ∈ requests, r.1 ≠ i ∧ Task.Avoids r.2.1 t) (hopen : s.chan.closed = false)
    (h : Task.exec held t s = .done b held' s') (hroom : s'.chan.queue.length ≤ capacity) :
    Run (fun c c' ↦ Step capacity Starts c c' ∧
        c.shared.chan.queue.length + c.senders.length ≤ s'.chan.queue.length)
      ⟨p.set i ⟨held, t >>= g⟩ s, requests, []⟩ ⟨p.set i ⟨held', g b⟩ s', requests, []⟩ := by
  induction t generalizing held s with
  | ret b' =>
    cases h
    exact .refl
  | act f k ih =>
    have hgrows := length_queue_exec held (.act f k) s
    rw [h] at hgrows
    have hstep := @Step.act _ _ _ _ _ _ _ capacity Starts
      ⟨p.set i ⟨held, .act f k >>= g⟩ s, requests, []⟩ i f (fun w ↦ k w >>= g) (by simp)
    have hset : Step capacity Starts ⟨p.set i ⟨held, .act f k >>= g⟩ s, requests, []⟩
        ⟨p.set i ⟨held, k s.world >>= g⟩ { s with world := f s.world }, requests, []⟩ := by
      simpa using hstep
    exact .cons ⟨hset, hgrows⟩ (ih _ (fun r hr ↦ ⟨(hrequests r hr).1, (hrequests r hr).2 _⟩) hopen h)
  | lock l m k ih =>
    have hgrows := length_queue_exec held (.lock l m k) s
    rw [h] at hgrows
    rw [Task.exec] at h
    split at h
    · cases h
    · next hown =>
      obtain ⟨d, hshared, hsenders, hask, hget⟩ := @step_lock _ _ _ _ _ _ _ capacity Starts p i held
        s requests l m (k >>= g) hothers
        (fun r hr ↦ ⟨(hrequests r hr).1, ((hrequests r hr).2.1).symm⟩) (Bool.eq_false_iff.mpr hown)
      refine .cons ⟨hask, hgrows⟩ (.cons ⟨hget, ?_⟩ (ih ?_ hopen h))
      · rw [hshared, hsenders]
        exact hgrows
      · exact fun r hr ↦ ⟨(hrequests r hr).1, (hrequests r hr).2.2⟩
  | unlock l m k ih =>
    have hgrows := length_queue_exec held (.unlock l m k) s
    rw [h] at hgrows
    have hstep := @Step.unlock _ _ _ _ _ _ _ capacity Starts
      ⟨p.set i ⟨held, .unlock l m k >>= g⟩ s, requests, []⟩ i l m (k >>= g) (by simp)
    have hset : Step capacity Starts ⟨p.set i ⟨held, .unlock l m k >>= g⟩ s, requests, []⟩
        ⟨p.set i ⟨held.erase (l, m), k >>= g⟩ s, requests, []⟩ := by
      simpa using hstep
    exact .cons ⟨hset, hgrows⟩ (ih hrequests hopen h)
  | send u k ih =>
    have hgrows := length_queue_exec held (k (s.chan.send u).1) { s with chan := (s.chan.send u).2 }
    rw [Task.exec] at h
    rw [h, Channel.send_of_open hopen] at hgrows
    have hlonger : s.chan.queue.length + 1 ≤ s'.chan.queue.length := by simpa using hgrows
    obtain ⟨d, hshared, hsenders, hoffer, hdeliver⟩ := @step_send _ _ _ _ _ _ _ capacity Starts p i
      held s requests u (fun b ↦ k b >>= g) (by omega)
    have hopen' : (s.chan.send u).2.closed = false := by
      rw [Channel.send_of_open hopen]
      exact hopen
    refine .cons ⟨hoffer, Nat.le_of_succ_le hlonger⟩ (.cons ⟨hdeliver, ?_⟩ (ih _ ?_ hopen' h))
    · rw [hshared, hsenders]
      exact hlonger
    · exact fun r hr ↦ ⟨(hrequests r hr).1, (hrequests r hr).2 _⟩

theorem run_segment {c : FairPool ι L W U α} (hothers : ∀ j, j ≠ i → c.held j = [])
    (hcode : c.code i = t >>= g) (hrequests : ∀ r ∈ c.requests, r.1 ≠ i ∧ Task.Avoids r.2.1 t)
    (hsenders : c.senders = []) (hopen : c.shared.chan.closed = false)
    (h : Task.exec (c.held i) t c.shared = .done b held' s')
    (hroom : s'.chan.queue.length ≤ capacity) :
    Run (fun c c' ↦ Step capacity Starts c c' ∧
        c.shared.chan.queue.length + c.senders.length ≤ s'.chan.queue.length)
      c ⟨c.set i ⟨held', g b⟩ s', c.requests, []⟩ := by
  obtain ⟨p, requests, senders⟩ := c
  obtain rfl : senders = [] := hsenders
  have hrun := @run_alone _ _ _ _ _ _ _ _ capacity Starts p i (p.held i) held' p.shared s' requests
    t g b hothers hrequests hopen h hroom
  rw [← (hcode : p.code i = t >>= g), Pool.set_eq_self] at hrun
  exact hrun

end Alone

end FairPool

end Async
