import Mathlib.Data.List.Basic
import Mathlib.Tactic.Common

namespace Collections

variable {ι Op S A V : Type}

/-- The agents handle their events in the order of the list. -/
inductive RunAll (step : ι → Op → S → S → Prop) : S → List (ι × Op) → S → Prop
  | nil (s : S) : RunAll step s [] s
  | cons {s t u : S} {i : ι} {op : Op} {events : List (ι × Op)} (h : step i op s t)
    (hrest : RunAll step t events u) : RunAll step s ((i, op) :: events) u

/-- Two interleavings of the same streams: each agent has its own events in the same order. -/
def SameStreams [DecidableEq ι] (events events' : List (ι × Op)) : Prop :=
  ∀ i, events.filter (fun e ↦ decide (e.1 = i)) = events'.filter fun e ↦ decide (e.1 = i)

theorem SameStreams.mem_iff [DecidableEq ι] {events events' : List (ι × Op)}
    (h : SameStreams events events') (e : ι × Op) : e ∈ events ↔ e ∈ events' := by
  have hmem := congrArg (e ∈ ·) (h e.1)
  simpa using hmem

/-- Each agent acts at a place of its own. What can be seen at a place after a step depends
on what was seen there before, and only the agent of the place changes it. -/
structure Local (step : ι → Op → S → S → Prop) (place : ι → A) (view : A → S → V) : Prop where
  own : ∀ {i op s s' t t'}, step i op s t → step i op s' t' →
    view (place i) s = view (place i) s' → view (place i) t = view (place i) t'
  other : ∀ {i op a s t}, step i op s t → a ≠ place i → view a t = view a s

inductive Seen (step : ι → Op → S → S → Prop) (place : ι → A) (view : A → S → V) (a : A) :
    V → List (ι × Op) → V → Prop
  | nil (v : V) : Seen step place view a v [] v
  | cons {s t : S} {i : ι} {op : Op} {events : List (ι × Op)} {w : V} (h : step i op s t)
    (hplace : place i = a) (hrest : Seen step place view a (view a t) events w) :
    Seen step place view a (view a s) ((i, op) :: events) w

variable {step : ι → Op → S → S → Prop} {place : ι → A} {view : A → S → V}

namespace Local

theorem seen_unique (h : Local step place view) {a : A} {v w w' : V} {events : List (ι × Op)}
    (hseen : Seen step place view a v events w) (hseen' : Seen step place view a v events w') :
    w = w' := by
  induction hseen with
  | nil v =>
    cases hseen'
    rfl
  | @cons s t i op events w hstep hplace hrest ih =>
    generalize hv : view a s = v at hseen'
    cases hseen' with
    | @cons s' t' _ _ _ _ hstep' _ hrest' =>
      subst hplace
      apply ih
      rwa [h.own hstep hstep' hv]

theorem seen_of_runAll [DecidableEq A] (h : Local step place view) (a : A) {s t : S}
    {events : List (ι × Op)} (hrun : RunAll step s events t) : Seen step place view a (view a s)
      (events.filter fun e ↦ decide (place e.1 = a)) (view a t) := by
  induction hrun with
  | nil s => exact .nil _
  | @cons s t u i op events hstep _ ih =>
    by_cases hi : place i = a
    · rw [List.filter_cons_of_pos (by simpa using hi)]
      exact .cons hstep hi ih
    · rw [List.filter_cons_of_neg (by simpa using hi), ← h.other hstep (Ne.symm hi)]
      exact ih

end Local

theorem filter_place [DecidableEq ι] [DecidableEq A] (hplace : Function.Injective place)
    {events events' : List (ι × Op)} (h : SameStreams events events') (a : A) :
    events.filter (fun e ↦ decide (place e.1 = a)) =
      events'.filter fun e ↦ decide (place e.1 = a) := by
  by_cases ha : ∃ i, place i = a
  · obtain ⟨i, rfl⟩ := ha
    simpa only [hplace.eq_iff] using h i
  · push Not at ha
    simp [ha]

/-- What is seen at a place is the same after every interleaving of the same streams. -/
theorem Local.view_eq [DecidableEq ι] [DecidableEq A] (h : Local step place view)
    (hplace : Function.Injective place) {events events' : List (ι × Op)}
    (hstreams : SameStreams events events') {s t t' : S} (hrun : RunAll step s events t)
    (hrun' : RunAll step s events' t') (a : A) : view a t = view a t' := by
  have hseen := h.seen_of_runAll a hrun
  have hseen' := h.seen_of_runAll a hrun'
  rw [filter_place hplace hstreams] at hseen
  exact h.seen_unique hseen hseen'

end Collections
