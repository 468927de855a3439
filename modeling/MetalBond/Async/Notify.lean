import Mathlib.Logic.Function.Basic

namespace Async

/-- Where the task of a loop is that waits, in a `select!`, for a notification and for work. -/
inductive Ear
  | unstarted
  /-- It is on its way to the `select!`, or in the body of a branch. -/
  | working
  /-- Its future is registered; a notification may have woken it. -/
  | waiting (woken : Bool)
  | finished
  deriving DecidableEq

namespace Ear

/-- Only the futures that are registered are woken. -/
def notified : Ear → Ear
  | .waiting _ => .waiting true
  | e => e

/-- What a loop may do by itself; another branch drops its future, woken or not. -/
inductive Next : Ear → Ear → Prop
  | same (e : Ear) : Next e e
  | spawn : Next .unstarted .working
  | enter : Next .working (.waiting false)
  | branch (woken : Bool) : Next (.waiting woken) .working
  | leave : Next (.waiting true) .finished

def Deaf (e : Ear) : Prop := e = .working ∨ e = .waiting false

variable {e e' : Ear}

theorem deaf_working : Deaf .working := .inl rfl

theorem deaf_waiting : Deaf (.waiting false) := .inr rfl

theorem not_deaf_woken : ¬ Deaf (.waiting true) := by simp [Deaf]

theorem not_deaf_finished : ¬ Deaf .finished := by simp [Deaf]

theorem notified_ne_working (h : e ≠ .working) : e.notified ≠ .working := by
  cases e with
  | working => exact absurd rfl h
  | _ => simp [notified]

theorem not_deaf_notified (h : e ≠ .working) : ¬ Deaf e.notified := by
  cases e with
  | working => exact absurd rfl h
  | waiting woken => exact not_deaf_woken
  | unstarted => simp [Deaf, notified]
  | finished => exact not_deaf_finished

theorem Next.woken (h : Next e (.waiting true)) : e = .waiting true := by
  cases h
  rfl

/-- A loop that missed the notification does not finish without another one. -/
theorem Next.deaf (h : Next e e') (hdeaf : Deaf e) : Deaf e' := by
  cases h with
  | same => exact hdeaf
  | enter => exact deaf_waiting
  | branch woken => exact deaf_working
  | spawn => exact deaf_working
  | leave => exact absurd hdeaf not_deaf_woken

/-- One that was started and has heard it finishes, as long as it takes no other branch. -/
theorem Next.not_deaf (h : Next e e') (hdeaf : ¬ Deaf e) (hstarted : e = .unstarted → e' ≠ .working)
    (hheeds : e = .waiting true → e' ≠ .working) : ¬ Deaf e' := by
  cases h with
  | same => exact hdeaf
  | spawn => exact absurd rfl (hstarted rfl)
  | enter => exact absurd deaf_working hdeaf
  | branch woken =>
    cases woken with
    | true => exact absurd rfl (hheeds rfl)
    | false => exact absurd deaf_waiting hdeaf
  | leave => exact not_deaf_finished

end Ear

end Async
