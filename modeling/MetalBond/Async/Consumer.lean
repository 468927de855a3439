import MetalBond.Async.FairLock
import Mathlib.Data.List.Nodup

open Async.Task (Avoids Enters)

namespace Async.FairPool

variable {ι L W U α : Type} [DecidableEq ι]

section Definitions

variable (d : ι) (l : L) (capacity : ℕ) (c : FairPool ι L W U α)

/-- The consumer waits for its read guard behind somebody's write guard. -/
structure Barred : Prop where
  waits : (d, l, .read) ∈ c.requests
  behind : (∃ i, (l, .write) ∈ c.held i) ∨ ∃ i, (i, l, .write) ∈ ahead d c.requests

structure Stuck (i : ι) : Prop where
  guarded : ∃ m, (l, m) ∈ c.held i
  sends : i ∈ c.senders
  unclosed : c.shared.chan.closed = false
  full : capacity ≤ c.shared.chan.queue.length

/-- A task waits for the consumer, and the consumer for a guard. -/
def Deadlocked : Prop := Barred d l c ∧ ∃ i, Stuck l capacity c i

def Due : Prop := ∃ k, c.code d = .lock l .read k

/-- Nobody has a write guard, or is to get one before the consumer gets its read guard. -/
structure Clear : Prop where
  held : ∀ i, (l, .write) ∉ c.held i
  ahead : ∀ i, (i, l, .write) ∉ ahead d c.requests

def Jammed : Prop :=
  c.shared.chan.closed = false ∧ capacity < c.shared.chan.queue.length + c.senders.length

structure Careful (c c' : FairPool ι L W U α) : Prop where
  /-- While the consumer is due, a task finds no free slot only when the way is clear. -/
  offers : ∀ i, c'.senders = c.senders ++ [i] → c.shared.chan.closed = false →
    capacity ≤ c.shared.chan.queue.length + c.senders.length → Due d l c → Clear d l c
  /-- The consumer leaves more senders than slots only when the way is clear. -/
  takes : ∀ u ch, c.shared.chan.recv = some (u, ch) → c'.shared.chan = ch →
    capacity < ch.queue.length + c.senders.length → Clear d l c
  /-- No task asks for a write guard while there are more senders than slots and the consumer
  is about to ask for its read guard. -/
  asks : ∀ i, c'.requests = c.requests ++ [(i, l, .write)] → Due d l c → Jammed capacity c →
    (d, l, .read) ∈ c.requests

structure Consumes (Starts : ι → Option U → Task L W U α → Prop) : Prop where
  only : ∀ i u t, Starts i (some u) t → i = d
  enters : ∀ o t, Starts d o t → (∃ u, o = some u) ∧ Enters l t

structure Orderly : Prop where
  queued : ∀ i g, (i, g) ∈ c.requests → ∃ k, c.code i = .lock g.1 g.2 k
  once : (c.requests.map Prod.fst).Nodup
  consumer : Enters l (c.code d) ∨ Avoids l (c.code d)
  clear : Due d l c → Jammed capacity c → Clear d l c

end Definitions

variable {d : ι} {l : L} {capacity : ℕ} {c c' : FairPool ι L W U α}

theorem Orderly.not_deadlocked (h : Orderly d l capacity c) : ¬ Deadlocked d l capacity c := by
  intro hex
  obtain ⟨⟨hwaits, hbehind⟩, i, hstuck⟩ := hex
  have hjammed : Jammed capacity c := by
    have hpos := List.length_pos_of_mem hstuck.sends
    have hfull := hstuck.full
    exact ⟨hstuck.unclosed, by omega⟩
  have hclear := h.clear (h.queued d _ hwaits) hjammed
  rcases hbehind with ⟨j, hj⟩ | ⟨j, hj⟩
  · exact hclear.held j hj
  · exact hclear.ahead j hj

theorem careful_of_room (h : c.shared.chan.queue.length + c.senders.length < capacity) :
    Careful d l capacity c c' where
  offers i _ _ hfull _ := absurd h (Nat.not_lt.mpr hfull)
  takes u ch hrecv _ hmany := by
    have hqueue := Channel.queue_of_recv hrecv
    rw [hqueue, List.length_cons] at h
    omega
  asks i _ _ hjammed := absurd (h.trans hjammed.2) (lt_irrefl _)

theorem orderly_of_idle (hidle : ∀ i, c.Idle i) (hrequests : c.requests = []) :
    Orderly d l capacity c := by
  obtain ⟨a, ha⟩ := hidle d
  refine ⟨?_, ?_, Or.inr ?_, ?_⟩
  · rw [hrequests]
    nofun
  · rw [hrequests]
    exact List.nodup_nil
  · rw [ha]
    trivial
  · intro hex
    obtain ⟨k, hk⟩ := hex
    cases ha.symm.trans hk

theorem Clear.mono (h : Clear d l c) (hheld : ∀ i, (l, .write) ∈ c'.held i → (l, .write) ∈ c.held i)
    (hahead : ∀ i, (i, l, .write) ∈ Async.ahead d c'.requests →
      (i, l, .write) ∈ Async.ahead d c.requests) : Clear d l c' :=
  ⟨fun i hi ↦ h.held i (hheld i hi), fun i hi ↦ h.ahead i (hahead i hi)⟩

theorem queued_set {requests : List (ι × Guard L)} {i : ι} {p : Proc L W U α} {s : Shared W U}
    (h : ∀ j g, (j, g) ∈ c.requests → ∃ k, c.code j = .lock g.1 g.2 k)
    (hsub : ∀ r ∈ requests, r ∈ c.requests) (hi : ∀ g, (i, g) ∉ requests) :
    ∀ j g, (j, g) ∈ requests → ∃ k, (c.set i p s).code j = .lock g.1 g.2 k := by
  intro j g hg
  have hj : j ≠ i := by
    rintro rfl
    exact hi g hg
  rw [Pool.code_set, Function.update_of_ne hj]
  exact h j g (hsub _ hg)

theorem not_due_of_avoids {t : Task L W U α} (h : Avoids l t) : ¬ ∃ k, t = .lock l .read k := by
  intro hex
  obtain ⟨k, rfl⟩ := hex
  exact h.1 rfl

theorem held_subset {i j : ι} {held : List (Guard L)} {t : Task L W U α} {s : Shared W U}
    (hsub : ∀ g ∈ held, g ∈ c.held i) {g : Guard L} (hg : g ∈ (c.set i ⟨held, t⟩ s).held j) :
    g ∈ c.held j := by
  rw [Pool.held_set] at hg
  by_cases hj : j = i
  · subst hj
    rw [Function.update_self] at hg
    exact hsub g hg
  · rwa [Function.update_of_ne hj] at hg

theorem Orderly.notMem_requests (h : Orderly d l capacity c) {i : ι}
    (hcode : ∀ l m k, c.code i ≠ .lock l m k) (g : Guard L) : (i, g) ∉ c.requests := by
  intro hg
  obtain ⟨k, hk⟩ := h.queued i g hg
  exact hcode _ _ _ hk

theorem Orderly.moved (h : Orderly d l capacity c) {i : ι} {e : Option (Task.LockEvent L)}
    {t : Task L W U α} {s : Shared W U} (hmove : Task.Move (c.code i) c.shared e t s)
    {held : List (Guard L)} {requests : List (ι × Guard L)} {senders : List ι}
    (hsub : requests.Sublist c.requests) (hi : ∀ g, (i, g) ∉ requests)
    (hclear : i ≠ d → Due d l c →
      s.chan.closed = false ∧ capacity < s.chan.queue.length + senders.length →
      Clear d l ⟨c.set i ⟨held, t⟩ s, requests, senders⟩) :
    Orderly d l capacity ⟨c.set i ⟨held, t⟩ s, requests, senders⟩ := by
  refine ⟨queued_set h.queued (fun r hr ↦ hsub.subset hr) hi, h.once.sublist (hsub.map _), ?_, ?_⟩
  · change Enters l ((c.set i ⟨held, t⟩ s).code d) ∨ Avoids l ((c.set i ⟨held, t⟩ s).code d)
    rw [Pool.code_set]
    by_cases hd : d = i
    · subst hd
      rw [Function.update_self]
      exact Or.inr (Task.avoids_of_move h.consumer hmove)
    · rw [Function.update_of_ne hd]
      exact h.consumer
  · rintro ⟨k, hk⟩ hjammed
    have hk' : (c.set i ⟨held, t⟩ s).code d = .lock l .read k := hk
    rw [Pool.code_set] at hk'
    by_cases hd : d = i
    · subst hd
      rw [Function.update_self] at hk'
      exact absurd ⟨k, hk'⟩ (not_due_of_avoids (Task.avoids_of_move h.consumer hmove))
    · rw [Function.update_of_ne hd] at hk'
      exact hclear (Ne.symm hd) ⟨k, hk'⟩ hjammed

theorem Orderly.grant (h : Orderly d l capacity c) {i : ι} {l' : L} {m : Mode}
    {k : Task L W U α} {before after : List (ι × Guard L)} (hcode : c.code i = .lock l' m k)
    (hrequests : c.requests = before ++ (i, l', m) :: after) (hfirst : ∀ r ∈ before, r.2.1 ≠ l') :
    Orderly d l capacity
      ⟨c.set i ⟨(l', m) :: c.held i, k⟩ c.shared, before ++ after, c.senders⟩ := by
  have hmove := Task.Move.lock l' m k c.shared
  rw [← hcode] at hmove
  have hsub : (before ++ after).Sublist c.requests := by
    rw [hrequests]
    exact (List.Sublist.refl before).append (List.sublist_cons_self _ after)
  have hgone : ∀ g, (i, g) ∉ before ++ after := by
    intro g hg
    have honce := h.once
    rw [hrequests, List.map_append, List.map_cons, List.nodup_middle, List.nodup_cons] at honce
    have hi : i ∈ (before ++ after).map Prod.fst := List.mem_map_of_mem hg
    rw [List.map_append] at hi
    exact honce.1 hi
  refine h.moved hmove hsub hgone fun hi hdue hjammed ↦ ?_
  have hclear := h.clear hdue hjammed
  refine ⟨fun j hj ↦ ?_, fun j hj ↦ ?_⟩
  · change (l, .write) ∈ (c.set i ⟨(l', m) :: c.held i, k⟩ c.shared).held j at hj
    rw [Pool.held_set] at hj
    by_cases hji : j = i
    · subst hji
      rw [Function.update_self] at hj
      rcases List.mem_cons.mp hj with heq | hj
      · -- the grant would pass the consumer's own request by
        cases heq
        refine hclear.ahead j ?_
        rw [hrequests]
        refine mem_ahead_of_before hi fun r hr hrd ↦ ?_
        obtain ⟨r, g⟩ := r
        obtain rfl : r = d := hrd
        obtain ⟨k', hk'⟩ := h.queued r g (by rw [hrequests]; exact List.mem_append_left _ hr)
        obtain ⟨k'', hk''⟩ := hdue
        have heq := hk'.symm.trans hk''
        injection heq with hl
        exact hfirst _ hr hl
      · exact hclear.held j hj
    · rw [Function.update_of_ne hji] at hj
      exact hclear.held j hj
  · refine hclear.ahead j ?_
    rw [hrequests]
    exact mem_ahead_insert hi hj

theorem Orderly.request (h : Orderly d l capacity c) {i : ι} {l' : L} {m : Mode}
    {k : Task L W U α} (hcode : c.code i = .lock l' m k) (hnew : ∀ g, (i, g) ∉ c.requests)
    (hcareful : Careful d l capacity c ⟨c.toPool, c.requests ++ [(i, l', m)], c.senders⟩) :
    Orderly d l capacity ⟨c.toPool, c.requests ++ [(i, l', m)], c.senders⟩ := by
  refine ⟨fun j g hg ↦ ?_, ?_, h.consumer, fun hdue hjammed ↦ ?_⟩
  · rcases List.mem_append.mp hg with hg | hg
    · exact h.queued j g hg
    · cases List.mem_singleton.mp hg
      exact ⟨k, hcode⟩
  · have hfresh : i ∉ c.requests.map Prod.fst := by
      intro hi
      obtain ⟨⟨_, g⟩, hg, rfl⟩ := List.mem_map.mp hi
      exact hnew g hg
    rw [List.map_append, List.map_singleton]
    exact List.Nodup.append h.once (List.nodup_singleton i) (by simpa using hfresh)
  · have hclear := h.clear hdue hjammed
    refine ⟨hclear.held, fun j hj ↦ ?_⟩
    rcases mem_ahead_append hj with hj | ⟨heq, hnone⟩
    · exact hclear.ahead j hj
    · cases heq
      exact hnone _ (hcareful.asks i rfl hdue hjammed) rfl

section Step

variable [DecidableEq L] {Starts : ι → Option U → Task L W U α → Prop}

theorem Orderly.step (h : Orderly d l capacity c) (hconsumes : Consumes d l Starts)
    (hstep : Step capacity Starts c c') (hcareful : Careful d l capacity c c') :
    Orderly d l capacity c' := by
  cases hstep with
  | act i f k hcode =>
    have hmove := Task.Move.act f k c.shared
    rw [← hcode] at hmove
    refine h.moved hmove (List.Sublist.refl _) (h.notMem_requests fun _ _ _ ↦ by simp [hcode])
      fun _ hdue hjammed ↦ ?_
    exact (h.clear hdue hjammed).mono (fun j ↦ held_subset fun _ hg ↦ hg) fun _ hj ↦ hj
  | unlock i l' m k hcode =>
    have hmove := Task.Move.unlock l' m k c.shared
    rw [← hcode] at hmove
    refine h.moved hmove (List.Sublist.refl _) (h.notMem_requests fun _ _ _ ↦ by simp [hcode])
      fun _ hdue hjammed ↦ ?_
    exact (h.clear hdue hjammed).mono (fun j ↦ held_subset fun _ ↦ List.mem_of_mem_erase)
      fun _ hj ↦ hj
  | request i l' m k hcode hnew => exact h.request hcode hnew hcareful
  | grant i l' m k before after hcode hrequests hfirst _ => exact h.grant hcode hrequests hfirst
  | offer i u k hcode hnew =>
    refine ⟨h.queued, h.once, h.consumer, fun hdue hjammed ↦ ?_⟩
    have hclear : Clear d l c := by
      by_cases hold : Jammed capacity c
      · exact h.clear hdue hold
      · refine hcareful.offers i rfl hjammed.1 ?_ hdue
        have hmany : capacity < c.shared.chan.queue.length + (c.senders ++ [i]).length := hjammed.2
        rw [List.length_append, List.length_singleton] at hmany
        by_contra hfew
        exact hold ⟨hjammed.1, by omega⟩
    exact hclear.mono (fun _ hj ↦ hj) fun _ hj ↦ hj
  | deliver i u k rest hcode hsenders hroom =>
    have hmove := Task.Move.send u k c.shared
    rw [← hcode] at hmove
    refine h.moved hmove (List.Sublist.refl _) (h.notMem_requests fun _ _ _ ↦ by simp [hcode])
      fun _ hdue hjammed ↦ ?_
    have hold : Jammed capacity c := by
      have hlength : (c.shared.chan.send u).2.queue.length ≤ c.shared.chan.queue.length + 1 := by
        unfold Channel.send
        split <;> simp
      have hopen : c.shared.chan.closed = false := by
        rw [← Channel.closed_send c.shared.chan u]
        exact hjammed.1
      have hmany : capacity < (c.shared.chan.send u).2.queue.length + rest.length := hjammed.2
      refine ⟨hopen, ?_⟩
      rw [hsenders, List.length_cons]
      omega
    exact (h.clear hdue hold).mono (fun j ↦ held_subset fun _ hg ↦ hg) fun _ hj ↦ hj
  | start i t hidle hstart =>
    obtain ⟨a, ha⟩ := hidle
    have hi : i ≠ d := by
      rintro rfl
      obtain ⟨⟨u, hu⟩, -⟩ := hconsumes.enters none t hstart
      cases hu
    have hcode : (c.set i ⟨c.held i, t⟩ c.shared).code d = c.code d := by
      rw [Pool.code_set, Function.update_of_ne hi.symm]
    refine ⟨queued_set h.queued (fun _ hr ↦ hr) (h.notMem_requests fun _ _ _ ↦ by simp [ha]),
      h.once, ?_, fun hdue hjammed ↦ ?_⟩
    · change Enters l ((c.set i ⟨c.held i, t⟩ c.shared).code d) ∨ Avoids l _
      rw [hcode]
      exact h.consumer
    · obtain ⟨k, hk⟩ := hdue
      have hdue : Due d l c := ⟨k, hcode.symm.trans hk⟩
      exact (h.clear hdue hjammed).mono (fun j ↦ held_subset fun _ hg ↦ hg) fun _ hj ↦ hj
  | receive i u ch t hidle hrecv hstart =>
    obtain ⟨a, ha⟩ := hidle
    obtain rfl := hconsumes.only i u t hstart
    refine ⟨queued_set h.queued (fun _ hr ↦ hr) (h.notMem_requests fun _ _ _ ↦ by simp [ha]),
      h.once, Or.inl ?_, fun _ hjammed ↦ ?_⟩
    · change Enters l ((c.set i ⟨c.held i, t⟩ { c.shared with chan := ch }).code i)
      rw [Pool.code_set, Function.update_self]
      exact (hconsumes.enters _ t hstart).2
    · have hclear := hcareful.takes u ch hrecv rfl hjammed.2
      exact hclear.mono (fun j ↦ held_subset fun _ hg ↦ hg) fun _ hj ↦ hj

/-- When every step is careful, the consumer and the senders never wait for each other. -/
theorem not_deadlocked_of_careful (hconsumes : Consumes d l Starts) (hidle : ∀ i, c.Idle i)
    (hrequests : c.requests = [])
    (hrun : Run (fun c c' ↦ Step capacity Starts c c' ∧ Careful d l capacity c c') c c') :
    ¬ Deadlocked d l capacity c' := by
  have horderly : Orderly d l capacity c' :=
    hrun.invariant (orderly_of_idle hidle hrequests) fun _ _ h hstep ↦
      h.step hconsumes hstep.1 hstep.2
  exact horderly.not_deadlocked

end Step

end Async.FairPool
