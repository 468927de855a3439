import MetalBond.Async.Frame
import MetalBond.Async.Monitor

namespace Async

open Async.Task (Follows)

namespace Task

variable {L W U α β : Type}

/-- Every step of the task keeps to `R`, but for the actions in `Free`. -/
def ConfinedBut (Free : (W → W) → Prop) (R : Shared W U → Shared W U → Prop) :
    Task L W U α → Prop
  | ret _ => True
  | act f k => (Free f ∨ ∀ s : Shared W U, R s { s with world := f s.world }) ∧
    ∀ w, ConfinedBut Free R (k w)
  | lock _ _ k | unlock _ _ k => ConfinedBut Free R k
  | send u k => (∀ s : Shared W U, R s { s with chan := (s.chan.send u).2 }) ∧
    ∀ b, ConfinedBut Free R (k b)

namespace ConfinedBut

variable {Free : (W → W) → Prop} {R : Shared W U → Shared W U → Prop}
variable {t : Task L W U α} {g : α → Task L W U β}

theorem bind (h : ConfinedBut Free R t) (hg : ∀ a, ConfinedBut Free R (g a)) :
    ConfinedBut Free R (t >>= g) := by
  induction t with
  | ret a => exact hg a
  | act f k ih => exact ⟨h.1, fun w ↦ ih w (h.2 w)⟩
  | lock l m k ih => exact ih h
  | unlock l m k ih => exact ih h
  | send u k ih => exact ⟨h.1, fun b ↦ ih b (h.2 b)⟩

theorem of_confined (h : Confined R t) : ConfinedBut Free R t := by
  induction t with
  | ret a => trivial
  | act f k ih => exact ⟨.inr h.1, fun w ↦ ih w (h.2 w)⟩
  | lock l m k ih => exact ih h
  | unlock l m k ih => exact ih h
  | send u k ih => exact ⟨h.1, fun b ↦ ih b (h.2 b)⟩

theorem update {f : W → α × W} (h : Free fun w ↦ (f w).2) :
    ConfinedBut Free R (update f : Task L W U α) := ⟨.inl h, fun _ ↦ trivial⟩

theorem move [Std.Refl R] {t' : Task L W U α} {s s' : Shared W U} {e : Option (LockEvent L)}
    (h : ConfinedBut Free R t) (hmove : Move t s e t' s') :
    (R s s' ∨ ∃ f k, t = .act f k ∧ Free f ∧ s' = { s with world := f s.world }) ∧
      ConfinedBut Free R t' := by
  cases hmove with
  | act f k =>
    refine ⟨?_, h.2 _⟩
    rcases h.1 with hfree | hR
    · exact .inr ⟨f, k, rfl, hfree, rfl⟩
    · exact .inl (hR s)
  | lock l m k => exact ⟨.inl (Std.Refl.refl s), h⟩
  | unlock l m k => exact ⟨.inl (Std.Refl.refl s), h⟩
  | send u k => exact ⟨.inl (h.1 s), h.2 _⟩

end ConfinedBut

end Task

variable {ι Stage L W U V α β : Type}

theorem Pool.Step.confinedBut [DecidableEq ι] [DecidableEq L] {Free : (W → W) → Prop}
    {R : Shared W U → Shared W U → Prop} [Std.Refl R]
    {Starts : ι → Option U → Task L W U α → Prop} {c c' : Pool ι L W U α}
    (hstep : Step Starts c c') (hcode : ∀ i, Task.ConfinedBut Free R (c.code i))
    (hstarts : ∀ i o t, Starts i o t → Task.ConfinedBut Free R t)
    (hrecv : ∀ (s : Shared W U) ch, R s { s with chan := ch }) :
    (R c.shared c'.shared ∨ ∃ i f k, c.code i = .act f k ∧ Free f ∧
      c'.shared = { c.shared with world := f c.shared.world }) ∧
    ∀ i, Task.ConfinedBut Free R (c'.code i) := by
  cases hstep with
  | move i e t s _ hmove =>
    obtain ⟨hact, ht⟩ := (hcode i).move hmove
    refine ⟨?_, forall_code_set hcode ht i s⟩
    rcases hact with hR | ⟨f, k, hi, hfree, hs⟩
    · exact .inl hR
    · exact .inr ⟨i, f, k, hi, hfree, hs⟩
  | start i t _ hstart =>
    exact ⟨.inl (Std.Refl.refl _), forall_code_set hcode (hstarts i none t hstart) i _⟩
  | receive i u ch t _ _ hstart =>
    exact ⟨.inl (hrecv ..), forall_code_set hcode (hstarts i (some u) t hstart) i _⟩

/-- The steps of a protocol until one of them is a lapse; from then on anything goes. -/
inductive Protocol.StepUntil (P : Protocol Stage L W U) (Lapse : Shared W U → Shared W U → Prop) :
    Option Stage → Option (Task.LockEvent L) → Shared W U → Option Stage → Shared W U → Prop
  | keep {σ e s σ' s'} (h : P.Step σ e s σ' s') : StepUntil P Lapse (some σ) e s (some σ') s'
  | lapse {σ e s s'} (h : Lapse s s') : StepUntil P Lapse (some σ) e s none s'
  | free {e s s'} : StepUntil P Lapse none e s none s'

def Protocol.until (P : Protocol Stage L W U) (Lapse : Shared W U → Shared W U → Prop) :
    Protocol (Option Stage) L W U where
  Knows σ e s := ∀ τ, σ = some τ → P.Knows τ e s
  Step := P.StepUntil Lapse
  Idle σ := ∀ τ, σ = some τ → P.Idle τ
  Start σ o σ' := ∃ τ τ', σ = some τ ∧ σ' = some τ' ∧ P.Start τ o τ'

section Until

variable {P : Protocol Stage L W U} {Lapse : Shared W U → Shared W U → Prop}

abbrev Unlapsed (Post : Stage → α → Prop) (σ : Option Stage) (a : α) : Prop :=
  ∀ τ, σ = some τ → Post τ a

variable {Post : Stage → α → Prop} {Then : Stage → β → Prop} {σ : Stage}
variable {t : Task L W U α} {g : α → Task L W U β}

theorem follows_lapsed (t : Task L W U α) : Follows (P.until Lapse) (Unlapsed Post) t none := by
  induction t with
  | ret a => exact nofun
  | act f k ih => exact fun s _ ↦ ⟨none, .free, ih _⟩
  | lock l m k ih => exact fun s _ ↦ ⟨none, .free, ih⟩
  | unlock l m k ih => exact fun s _ ↦ ⟨none, .free, ih⟩
  | send u k ih => exact fun s _ ↦ ⟨none, .free, ih _⟩

theorem Task.Follows.until (h : Follows P Post t σ) :
    Follows (P.until Lapse) (Unlapsed Post) t (some σ) := by
  induction t generalizing σ with
  | ret a =>
    intro _ hex
    cases hex
    exact h
  | act f k ih =>
    intro s hs
    obtain ⟨σ', hstep, hk⟩ := h s (hs σ rfl)
    exact ⟨some σ', .keep hstep, ih _ hk⟩
  | lock l m k ih =>
    intro s hs
    obtain ⟨σ', hstep, hk⟩ := h s (hs σ rfl)
    exact ⟨some σ', .keep hstep, ih hk⟩
  | unlock l m k ih =>
    intro s hs
    obtain ⟨σ', hstep, hk⟩ := h s (hs σ rfl)
    exact ⟨some σ', .keep hstep, ih hk⟩
  | send u k ih =>
    intro s hs
    obtain ⟨σ', hstep, hk⟩ := h s (hs σ rfl)
    exact ⟨some σ', .keep hstep, ih _ hk⟩

theorem Task.Follows.bind_until (h : Follows (P.until Lapse) (Unlapsed Post) t (some σ))
    (hg : ∀ σ a, Post σ a → Follows (P.until Lapse) (Unlapsed Then) (g a) (some σ)) :
    Follows (P.until Lapse) (Unlapsed Then) (t >>= g) (some σ) := by
  refine h.bind fun σ' a hpost ↦ ?_
  cases σ' with
  | none => exact follows_lapsed _
  | some τ => exact hg τ a (hpost τ rfl)

theorem Protocol.Move.of_until [DecidableEq ι] [DecidableEq L] {held held' : ι → List (Guard L)}
    {i : ι} {s s' : Shared W U} {σ' : Option Stage}
    (h : (P.until Lapse).Move held i (some σ) s σ' held' s') (hfine : ¬ Lapse s s') :
    ∃ τ, σ' = some τ ∧ P.Move held i σ s τ held' s' := by
  cases h with
  | step e _ _ hallowed hstep =>
    cases hstep with
    | keep hstep => exact ⟨_, rfl, .step e _ _ hallowed hstep⟩
    | lapse hlapse => exact absurd hlapse hfine
  | start _ hidle hstart =>
    obtain ⟨τ, τ', hτ, rfl, hstart⟩ := hstart
    cases hτ
    exact ⟨τ', rfl, .start τ' (hidle _ rfl) hstart⟩
  | receive u ch _ hidle hrecv hstart =>
    obtain ⟨τ, τ', hτ, rfl, hstart⟩ := hstart
    cases hτ
    exact ⟨τ', rfl, .receive u ch τ' (hidle _ rfl) hrecv hstart⟩

end Until

namespace Monitor

variable {M : Monitor L W U V} {Lapse : Shared W U → Shared W U → Prop}

theorem follows_update_until {v : V} {f : W → α × W} {Q : Option V → α → Prop}
    (h : ∀ s, M.view s = v → ¬ Lapse s { s with world := (f s.world).2 } →
      Q (some (M.view { s with world := (f s.world).2 })) (f s.world).1) :
    Follows (M.protocol.until Lapse) (Unlapsed Q) (Task.update f) (some (some v)) := by
  refine .update fun s hs ↦ ?_
  by_cases hlapse : Lapse s { s with world := (f s.world).2 }
  · exact ⟨none, .lapse hlapse, nofun⟩
  · refine ⟨some (some (M.view { s with world := (f s.world).2 })), .keep (.within nofun), ?_⟩
    intro _ hex
    cases hex
    exact h s (hs _ rfl) hlapse

variable (M Lapse) in
def SoundUntil (c : Pool ι L W U α) : Prop :=
  ∃ σ : ι → Option V, c.Follows (M.protocol.until Lapse) (fun i ↦ some (σ i)) ∧
    M.Holds σ c.held c.shared

theorem Sound.until {c : Pool ι L W U α} (h : M.Sound c) : M.SoundUntil Lapse c := by
  obtain ⟨σ, hfollows, hholds⟩ := h
  exact ⟨σ, fun i ↦ (hfollows i).until, hholds⟩

theorem SoundUntil.good {c : Pool ι L W U α} (h : M.SoundUntil Lapse c)
    (hfree : ∀ i, M.guard ∉ c.held i) : M.Good (M.view c.shared) := by
  obtain ⟨σ, -, hholds⟩ := h
  exact hholds.good fun i ↦ (hholds.outside i).mpr (hfree i)

variable [DecidableEq L] [DecidableEq ι]
variable {Starts : ι → Option U → Task L W U α → Prop} {c c' : Pool ι L W U α}

theorem SoundUntil.step (h : M.SoundUntil Lapse c)
    (hstarts : ∀ i o t, Starts i o t → Follows (M.protocol.until Lapse)
      (Unlapsed fun σ _ ↦ σ = none) t (some none))
    (hstep : Pool.Step Starts c c') (hfine : ¬ Lapse c.shared c'.shared) :
    M.SoundUntil Lapse c' := by
  obtain ⟨σ, hfollows, hholds⟩ := h
  have hknows : ∀ i e, Allows c.held e → (M.protocol.until Lapse).Knows (some (σ i)) e c.shared := by
    intro i e he _ hex
    cases hex
    exact hholds.knows i he
  obtain ⟨i, σ', hmove, hfollows'⟩ := hstep.refines hfollows hknows fun i o t hidle hstart ↦
    ⟨some none, ⟨σ i, none, rfl, rfl, rfl⟩, hstarts i o t hstart⟩
  obtain ⟨τ, rfl, hkept⟩ := hmove.of_until hfine
  have hstages : Function.update (fun j ↦ some (σ j)) i (some τ) =
      fun j ↦ some (Function.update σ i τ j) := (Function.comp_update some σ i τ).symm
  rw [hstages] at hfollows'
  exact ⟨_, hfollows', hholds.move hkept⟩

end Monitor

end Async
