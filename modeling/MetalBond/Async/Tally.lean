import MetalBond.Async.Owned

namespace Async.Pool

open Async.Task (Confined)

variable {ι V L W U α : Type} {view : W → V} {f : V → U → V} {i : ι}
variable {Starts : ι → Option U → Task L W U α → Prop}

/-- The owner of a part of the data is the only one that takes messages off the channel, and
changes the part once for each of them. -/
structure Tallies (view : W → V) (f : V → U → V) (i : ι)
    (Starts : ι → Option U → Task L W U α → Prop) : Prop where
  prompted : ∀ t, ¬ Starts i none t
  own : ∀ u t v, Starts i (some u) t → Task.Follows (owner view) (fun v' _ ↦ v' = f v u) t v
  others : ∀ j o t, j ≠ i → Starts j o t → o = none ∧ Confined (Same view) t

theorem taken_move {s s' : Shared W U} {e : Option (Task.LockEvent L)} {t t' : Task L W U α}
    (h : Task.Move t s e t' s') : s'.chan.taken = s.chan.taken := by
  rcases h.chan with hchan | ⟨u, hchan⟩ <;> rw [hchan]
  exact Channel.taken_push ..

variable [DecidableEq ι] [DecidableEq L] {c₀ c c' : Pool ι L W U α}

def Tallied (view : W → V) (f : V → U → V) (i : ι) (v : V) (c : Pool ι L W U α) : Prop :=
  Owned view (· = c.shared.chan.taken.foldl f v) i c

theorem Tallied.step (h : Tallied view f i v c) (htallies : Tallies view f i Starts)
    (hstep : Step Starts c c') : Tallied view f i v c' := by
  cases hstep with
  | move j e t s hallowed hmove =>
    rw [Tallied, shared_set, taken_move hmove]
    have hnone : Respects view (· = c.shared.chan.taken.foldl f v) i
        (fun _ _ _ ↦ False : ι → Option U → Task L W U α → Prop) :=
      ⟨fun _ _ _ h ↦ h.elim, fun _ _ _ _ h ↦ h.elim⟩
    exact Owned.step h hnone (.move j e t s hallowed hmove)
  | start j t hidle hstart =>
    have hj : j ≠ i := by
      rintro rfl
      exact htallies.prompted t hstart
    exact Owned.set_other h hj (htallies.others j none t hj hstart).2 rfl
  | receive j u ch t hidle hrecv hstart =>
    by_cases hj : j = i
    · subst hj
      rw [Tallied, shared_set, Channel.taken_of_recv hrecv, List.foldl_append]
      refine Owned.set_own h ?_
      have hview : view c.shared.world = c.shared.chan.taken.foldl f v := Owned.good h hidle
      exact hview ▸ htallies.own u t _ hstart
    · cases (htallies.others j (some u) t hj hstart).1

/-- What the owner makes of the messages is what it makes of them one after the other, whatever
the other tasks do meanwhile. -/
theorem Tallies.run (htallies : Tallies view f i Starts) (hidle : ∀ j, c₀.Idle j)
    (htaken : c₀.shared.chan.taken = []) (hrun : Run (Step Starts) c₀ c) (hend : c.Idle i) :
    view c.shared.world = c.shared.chan.taken.foldl f (view c₀.shared.world) := by
  have hinit : Tallied view f i (view c₀.shared.world) c₀ := by
    refine ⟨?_, fun j _ ↦ ?_⟩
    · obtain ⟨a, ha⟩ := hidle i
      rw [ha, htaken]
      exact .ret rfl
    · obtain ⟨a, ha⟩ := hidle j
      rw [ha]
      exact .ret a
  have htallied : Tallied view f i (view c₀.shared.world) c :=
    hrun.invariant hinit fun _ _ h hstep ↦ h.step htallies hstep
  exact Owned.good htallied hend

end Async.Pool
