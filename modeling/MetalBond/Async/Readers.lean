import MetalBond.Async.Interleave

namespace Async

variable {ι L W U α β : Type} {l : L} {R : Shared W U → Shared W U → Prop}

namespace Task

section Guarded

variable [DecidableEq L]

/-- Without the write guard of the lock, every step of the task is within `R`. -/
def Guarded (l : L) (R : Shared W U → Shared W U → Prop) : List (Guard L) → Task L W U α → Prop
  | _, ret _ => True
  | held, act f k => ∀ s : Shared W U,
    ((l, .write) ∈ held ∨ R s { s with world := f s.world }) ∧ Guarded l R held (k s.world)
  | held, lock l' m k => Guarded l R ((l', m) :: held) k
  | held, unlock l' m k => Guarded l R (held.erase (l', m)) k
  | held, send u k => ∀ s : Shared W U,
    ((l, .write) ∈ held ∨ R s { s with chan := (s.chan.send u).2 }) ∧ ∀ b, Guarded l R held (k b)

namespace Guarded

variable {held : List (Guard L)} {t : Task L W U α} {g : α → Task L W U β}

theorem of_confined (h : Confined R t) : Guarded l R held t := by
  induction t generalizing held with
  | ret a => trivial
  | act f k ih => exact fun s ↦ ⟨.inr (h.1 s), ih _ (h.2 _)⟩
  | lock l' m k ih => exact ih h
  | unlock l' m k ih => exact ih h
  | send u k ih => exact fun s ↦ ⟨.inr (h.1 s), fun b ↦ ih b (h.2 b)⟩

theorem bind (h : Guarded l R held t) (hg : ∀ held a, Guarded l R held (g a)) :
    Guarded l R held (t >>= g) := by
  induction t generalizing held with
  | ret a => exact hg held a
  | act f k ih => exact fun s ↦ ⟨(h s).1, ih _ (h s).2⟩
  | lock l' m k ih => exact ih h
  | unlock l' m k ih => exact ih h
  | send u k ih => exact fun s ↦ ⟨(h s).1, fun b ↦ ih b ((h s).2 b)⟩

theorem updating {f : W → α × W} (hg : ∀ held a, Guarded l R held (g a)) :
    Guarded l R held (do
      acquire l .write
      let a ← update f
      g a) :=
  fun _ ↦ ⟨.inl List.mem_cons_self, hg _ _⟩

theorem move [Std.Refl R] (h : Guarded l R held t) {s s' : Shared W U} {e : Option (LockEvent L)}
    {t' : Task L W U α} (hmove : Move t s e t' s') :
    ((l, .write) ∈ held ∨ R s s') ∧ Guarded l R (heldAfter e held) t' := by
  cases hmove with
  | act f k => exact h s
  | lock l' m k => exact ⟨.inr (Std.Refl.refl s), h⟩
  | unlock l' m k => exact ⟨.inr (Std.Refl.refl s), h⟩
  | send u k => exact ⟨(h s).1, (h s).2 _⟩

end Guarded

end Guarded

/-- A task that only looks at the data, while these move within `R`, and returns what then and
from then on satisfies `Post`. -/
def Observes (R : Shared W U → Shared W U → Prop) (Post : Shared W U → α → Prop) :
    Task L W U α → Shared W U → Prop
  | ret a, s => ∀ s', R s s' → Post s' a
  | act f k, s => ∀ s', R s s' → f s'.world = s'.world ∧ Observes R Post (k s'.world) s'
  | lock .., _ | unlock .., _ | send .., _ => False

namespace Observes

variable {Post : Shared W U → α → Prop} {Then : Shared W U → β → Prop}
variable {t : Task L W U α} {g : α → Task L W U β} {s : Shared W U}

theorem bind [Std.Refl R] (h : Observes R Post t s)
    (hg : ∀ s a, (∀ s', R s s' → Post s' a) → Observes R Then (g a) s) :
    Observes R Then (t >>= g) s := by
  induction t generalizing s with
  | ret a => exact hg s a h
  | act f k ih => exact fun s' hs ↦ ⟨(h s' hs).1, ih _ (h s' hs).2⟩
  | lock l m k ih => exact h.elim
  | unlock l m k ih => exact h.elim
  | send u k ih => exact h.elim

theorem gets {f : W → α} (h : ∀ s', R s s' → ∀ s'', R s' s'' → Post s'' (f s'.world)) :
    Observes R Post (gets f : Task L W U α) s :=
  fun s' hs ↦ ⟨rfl, h s' hs⟩

end Observes

def underRead (l : L) (body : Task L W U α) : Task L W U α := do
  acquire l .read
  let a ← body
  release l .read
  return a

end Task

namespace Pool

variable [DecidableEq ι] [DecidableEq L] {Starts : ι → Option U → Task L W U α → Prop}
variable {Post : Shared W U → Shared W U → α → Prop} {c₀ c c' : Pool ι L W U α} {i : ι}

omit [DecidableEq ι] in
/-- The steps of all tasks are within `R`, as long as none has the write guard. -/
structure Guarded (l : L) (R : Shared W U → Shared W U → Prop) (c : Pool ι L W U α) : Prop where
  exclusive : Exclusive c.held
  code : ∀ i, Task.Guarded l R (c.held i) (c.code i)

omit [DecidableEq ι] in
theorem guarded_of_idle (hidle : ∀ i, c.Idle i) (hheld : ∀ i, c.held i = []) : c.Guarded l R := by
  refine ⟨?_, fun i ↦ ?_⟩
  · rw [show c.held = fun _ ↦ [] from funext hheld]
    exact exclusive_nil
  · obtain ⟨a, ha⟩ := hidle i
    rw [ha]
    trivial

structure Calm (l : L) (R : Shared W U → Shared W U → Prop)
    (Starts : ι → Option U → Task L W U α → Prop) : Prop where
  refl : Std.Refl R
  trans : IsTrans (Shared W U) R
  recv : ∀ (s : Shared W U) ch, R s { s with chan := ch }
  starts : ∀ i o t held, Starts i o t → Task.Guarded l R held t

theorem Guarded.set (h : c.Guarded l R) {held : List (Guard L)} {t : Task L W U α}
    (ht : Task.Guarded l R held t) (hexclusive : Exclusive (Function.update c.held i held))
    (s : Shared W U) : (c.set i ⟨held, t⟩ s).Guarded l R := by
  refine ⟨by rwa [held_set], fun j ↦ ?_⟩
  rw [held_set, code_set]
  by_cases hj : j = i
  · subst hj
    rwa [Function.update_self, Function.update_self]
  · rw [Function.update_of_ne hj, Function.update_of_ne hj]
    exact h.code j

theorem Guarded.step (h : c.Guarded l R) (hcalm : Calm l R Starts) (hstep : Step Starts c c') :
    c'.Guarded l R := by
  have := hcalm.refl
  have hsame (i : ι) : Exclusive (Function.update c.held i (c.held i)) := by
    rw [Function.update_eq_self]
    exact h.exclusive
  cases hstep with
  | move i e t s hallowed hmove =>
    exact h.set ((h.code i).move hmove).2 (h.exclusive.step hallowed i) s
  | start i t _ hstart => exact h.set (hcalm.starts i none t _ hstart) (hsame i) _
  | receive i u ch t _ _ hstart => exact h.set (hcalm.starts i (some u) t _ hstart) (hsame i) _

/-- While a task has a read guard, no step leaves `R`. -/
theorem Guarded.within (h : c.Guarded l R) (hcalm : Calm l R Starts) (hstep : Step Starts c c')
    (hread : (l, .read) ∈ c.held i) : R c.shared c'.shared := by
  have := hcalm.refl
  cases hstep with
  | move j e t s _ hmove =>
    rcases ((h.code j).move hmove).1 with hwrite | hR
    · exact absurd hwrite (h.exclusive.notMem_write hread j)
    · exact hR
  | start j t _ _ => exact Std.Refl.refl _
  | receive j u ch t _ _ _ => exact hcalm.recv ..

/-- The stretch of a run over which a request has its read guard: it got it as `c₁` was reached, and
from `c₂` on it gives it back with its answer, which is still the last one in `c`. -/
structure Interval (l : L) (Starts : ι → Option U → Task L W U α → Prop) (i : ι)
    (c₀ c₁ c₂ c : Pool ι L W U α) (a : α) : Prop where
  got : ∃ b, Run (Step Starts) c₀ b ∧ b.held i = [] ∧ Step Starts b c₁
  kept : Run (fun d d' ↦ Step Starts d d' ∧ d.held i = [(l, .read)]) c₁ c₂
  last : c₂.held i = [(l, .read)]
  gave : ∃ b, Step Starts c₂ b ∧ b.held i = [] ∧ b.code i = .ret a ∧
    Run (fun d d' ↦ Step Starts d d' ∧ d'.code i = .ret a) b c

/-- The answer was read over an interval of the run: `Post` relates it to both its ends. -/
def Answered (l : L) (R : Shared W U → Shared W U → Prop)
    (Starts : ι → Option U → Task L W U α → Prop) (Post : Shared W U → Shared W U → α → Prop)
    (i : ι) (c₀ c : Pool ι L W U α) (a : α) : Prop :=
  ∃ c₁ c₂, Interval l Starts i c₀ c₁ c₂ c a ∧ R c₁.shared c₂.shared ∧ Post c₁.shared c₂.shared a

/-- Where the reader is: between two requests, before the lock, or at work since it got it. -/
inductive Reads (l : L) (R : Shared W U → Shared W U → Prop)
    (Starts : ι → Option U → Task L W U α → Prop) (Post : Shared W U → Shared W U → α → Prop)
    (i : ι) (c₀ c : Pool ι L W U α) : Prop
  | idle (a : α) (hcode : c.code i = .ret a) (hheld : c.held i = [])
    (h : c₀.code i = .ret a ∨ Answered l R Starts Post i c₀ c a)
  | waiting (body : Task L W U α) (hbody : ∀ s, Task.Observes R (Post s) body s)
    (hcode : c.code i = Task.underRead l body) (hheld : c.held i = [])
  | reading (c₁ : Pool ι L W U α) (t : Task L W U α) (s : Shared W U)
    (hgot : ∃ b, Run (Step Starts) c₀ b ∧ b.held i = [] ∧ Step Starts b c₁)
    (hkept : Run (fun d d' ↦ Step Starts d d' ∧ d.held i = [(l, .read)]) c₁ c)
    (hheld : c.held i = [(l, .read)]) (hcode : c.code i = t >>= fun a ↦ .unlock l .read (.ret a))
    (hstart : R c₁.shared s) (hnow : R s c.shared) (h : Task.Observes R (Post c₁.shared) t s)

omit [DecidableEq L] in
theorem not_idle_unlock {t : Task L W U α} {a : α}
    (h : (t >>= fun a ↦ .unlock l .read (.ret a)) = .ret a) : False := by
  cases t <;> cases h

theorem Reads.held_of_idle (h : Reads l R Starts Post i c₀ c) (hidle : c.Idle i) :
    c.held i = [] := by
  obtain ⟨a, ha⟩ := hidle
  cases h with
  | idle _ _ hheld _ => exact hheld
  | waiting _ _ _ hheld => exact hheld
  | reading c₁ t s _ _ _ ht _ _ _ =>
    rw [ha] at ht
    cases t <;> cases ht

variable (hcalm : Calm l R Starts) (hreader : ∀ o t, Starts i o t → ∃ body,
  t = Task.underRead l body ∧ ∀ s, Task.Observes R (Post s) body s)

include hcalm

theorem Reads.other (h : Reads l R Starts Post i c₀ c) (hguarded : c.Guarded l R)
    (hstep : Step Starts c c') (hcode : c'.code i = c.code i) (hheld : c'.held i = c.held i) :
    Reads l R Starts Post i c₀ c' := by
  have htrans := hcalm.trans
  cases h with
  | idle a ha hnone h =>
    refine .idle a (hcode.trans ha) (hheld.trans hnone) (h.imp_right fun hanswered ↦ ?_)
    obtain ⟨c₁, c₂, hinterval, hR, hpost⟩ := hanswered
    obtain ⟨b, hback, hb, hret, hafter⟩ := hinterval.gave
    exact ⟨c₁, c₂, { hinterval with
      gave := ⟨b, hback, hb, hret, hafter.snoc ⟨hstep, hcode.trans ha⟩⟩ }, hR, hpost⟩
  | waiting body hbody hwait hnone =>
    exact .waiting body hbody (hcode.trans hwait) (hheld.trans hnone)
  | reading c₁ t s hgot hkept hread ht hstart hnow h =>
    have hR := hguarded.within hcalm hstep (hread ▸ List.mem_singleton_self _)
    exact .reading c₁ t s hgot (hkept.snoc ⟨hstep, hread⟩) (hheld.trans hread) (hcode.trans ht)
      hstart (htrans.trans _ _ _ hnow hR) h

theorem Reads.move (h : Reads l R Starts Post i c₀ c) {e : Option (Task.LockEvent L)}
    {t : Task L W U α} {s : Shared W U} (hallowed : Allows c.held e) (hrun : Run (Step Starts) c₀ c)
    (hmove : Task.Move (c.code i) c.shared e t s) :
    Reads l R Starts Post i c₀ (c.set i ⟨heldAfter e (c.held i), t⟩ s) := by
  have hrefl := hcalm.refl
  have htrans := hcalm.trans
  have hstep : Step Starts c _ := .move i e t s hallowed hmove
  have hcode (p : Proc L W U α) (s : Shared W U) : (c.set i p s).code i = p.code := by
    rw [code_set, Function.update_self]
  have hheld (p : Proc L W U α) (s : Shared W U) : (c.set i p s).held i = p.held := by
    rw [held_set, Function.update_self]
  cases h with
  | idle a ha hnone h =>
    rw [ha] at hmove
    cases hmove
  | waiting body hbody hwait hnone =>
    rw [hwait] at hmove
    cases hmove
    refine .reading _ body c.shared ⟨c, hrun, hnone, hstep⟩ .refl ?_ (hcode ..) (hrefl.refl _)
      (hrefl.refl _) (hbody _)
    rw [hheld, hnone]
    rfl
  | reading c₁ t₁ s₁ hgot hkept hread ht hstart hnow h =>
    rw [ht] at hmove
    cases t₁ with
    | ret a =>
      cases hmove
      have hnone : (c.set i ⟨heldAfter (some (.release l .read)) (c.held i), .ret a⟩
          c.shared).held i = [] := by
        rw [hheld, hread]
        exact List.erase_cons_head ..
      refine .idle a (hcode ..) hnone (.inr ⟨c₁, c, ?_, htrans.trans _ _ _ hstart hnow, h _ hnow⟩)
      exact ⟨hgot, hkept, hread, _, hstep, hnone, hcode .., .refl⟩
    | act f k =>
      cases hmove
      obtain ⟨hsame, hk⟩ := h _ hnow
      have hshared : ({ c.shared with world := f c.shared.world } : Shared W U) = c.shared := by
        rw [hsame]
      refine .reading c₁ (k c.shared.world) c.shared hgot (hkept.snoc ⟨hstep, hread⟩) ?_ (hcode ..)
        (htrans.trans _ _ _ hstart hnow) ?_ hk
      · rw [hheld]
        exact hread
      · rw [shared_set, hshared]
        exact hrefl.refl _
    | lock l' m k => exact h.elim
    | unlock l' m k => exact h.elim
    | send u k => exact h.elim

include hreader

theorem Reads.step (h : Reads l R Starts Post i c₀ c) (hguarded : c.Guarded l R)
    (hrun : Run (Step Starts) c₀ c) (hstep : Step Starts c c') : Reads l R Starts Post i c₀ c' := by
  have hstarted {o : Option U} {t : Task L W U α} {s : Shared W U} (hidle : c.Idle i)
      (hstart : Starts i o t) : Reads l R Starts Post i c₀ (c.set i ⟨c.held i, t⟩ s) := by
    obtain ⟨body, rfl, hbody⟩ := hreader o t hstart
    refine .waiting body hbody ?_ ?_
    · rw [code_set, Function.update_self]
    · rw [held_set, Function.update_self]
      exact h.held_of_idle hidle
  have hother {j : ι} {p : Proc L W U α} {s : Shared W U} (hj : i ≠ j)
      (hstep : Step Starts c (c.set j p s)) : Reads l R Starts Post i c₀ (c.set j p s) := by
    refine h.other hcalm hguarded hstep ?_ ?_
    · rw [code_set, Function.update_of_ne hj]
    · rw [held_set, Function.update_of_ne hj]
  cases hstep with
  | move j e t s hallowed hmove =>
    by_cases hj : i = j
    · subst hj
      exact h.move hcalm hallowed hrun hmove
    · exact hother hj (.move j e t s hallowed hmove)
  | start j t hidle hstart =>
    by_cases hj : i = j
    · subst hj
      exact hstarted hidle hstart
    · exact hother hj (.start j t hidle hstart)
  | receive j u ch t hidle hrecv hstart =>
    by_cases hj : i = j
    · subst hj
      exact hstarted hidle hstart
    · exact hother hj (.receive j u ch t hidle hrecv hstart)

/-- What a reader returns lies between the data as it got its guard and the data as it gave it
back, and these are within `R`. -/
theorem answered_of_run (hidle : ∀ j, c₀.Idle j) (hheld : ∀ j, c₀.held j = [])
    (hrun : Run (Step Starts) c₀ c) {a : α} (hcode : c.code i = .ret a) :
    c₀.code i = .ret a ∨ Answered l R Starts Post i c₀ c a := by
  have hboth : c.Guarded l R ∧ Reads l R Starts Post i c₀ c := by
    clear hcode
    induction hrun with
    | refl =>
      obtain ⟨a, ha⟩ := hidle i
      exact ⟨guarded_of_idle hidle hheld, .idle a ha (hheld i) (.inl ha)⟩
    | tail hrun hstep ih =>
      exact ⟨ih.1.step hcalm hstep, ih.2.step hcalm hreader ih.1 hrun hstep⟩
  cases hboth.2 with
  | idle a' ha' _ h =>
    cases ha'.symm.trans hcode
    exact h
  | waiting body _ hwait _ => cases hwait.symm.trans hcode
  | reading c₁ t s _ _ _ ht _ _ _ => exact (not_idle_unlock (ht.symm.trans hcode)).elim

end Pool

end Async
