import Mathlib.Data.Set.Insert
import Mathlib.Data.Set.Lattice

namespace Collections

inductive Change (α : Type)
  | add (a : α)
  | remove (a : α)
  deriving DecidableEq

namespace Change

variable {α β : Type}

def subject : Change α → α
  | add a | remove a => a

def apply (s : Set α) : Change α → Set α
  | add a => insert a s
  | remove a => s \ {a}

theorem mem_apply_of_ne {c : Change α} {a : α} (h : c.subject ≠ a) (s : Set α) :
    a ∈ apply s c ↔ a ∈ s := by
  have h' : a ≠ c.subject := h.symm
  cases c <;> simp_all [apply, subject]

theorem mem_apply_congr {c : Change α} {a : α} {s t : Set α} (h : a ∈ s ↔ a ∈ t) :
    a ∈ apply s c ↔ a ∈ apply t c := by
  cases c <;> simp [apply, h]

theorem mem_apply_mono {c : Change α} {a : α} {s t : Set α} (h : a ∈ s → a ∈ t) :
    a ∈ apply s c → a ∈ apply t c := by
  cases c with
  | add b => exact Or.imp_right h
  | remove b => exact And.imp_left h

theorem mem_apply_subject (c : Change α) (s t : Set α) :
    c.subject ∈ apply s c ↔ c.subject ∈ apply t c := by
  cases c <;> simp [apply, subject]

theorem apply_union (c : Change α) (s t : Set α) :
    apply (s ∪ t) c = apply s c ∪ apply t c := by
  cases c with
  | add a => ext b; simp only [apply, Set.mem_insert_iff, Set.mem_union]; tauto
  | remove a => exact Set.union_sdiff_distrib

@[simp] theorem apply_apply (c : Change α) (s : Set α) : apply (apply s c) c = apply s c := by
  cases c <;> simp [apply]

/-- The set is as the change leaves it. -/
def Holds (s : Set α) : Change α → Prop
  | add a => a ∈ s
  | remove a => a ∉ s

def inverse : Change α → Change α
  | add a => remove a
  | remove a => add a

variable {c d : Change α} {s t : Set α}

theorem holds_inverse : c.inverse.Holds s ↔ ¬ c.Holds s := by
  cases c with
  | add a => exact Iff.rfl
  | remove a => exact not_not.symm

theorem holds_apply (c : Change α) (s : Set α) : c.Holds (c.apply s) := by
  cases c <;> simp [Holds, apply]

theorem holds_apply_of_ne (h : d.subject ≠ c.subject) : c.Holds (d.apply s) ↔ c.Holds s := by
  cases c with
  | add a => exact mem_apply_of_ne h s
  | remove a => exact not_congr (mem_apply_of_ne h s)

theorem eq_or_eq_inverse (h : d.subject = c.subject) : d = c ∨ d = c.inverse := by
  cases c <;> cases d <;> cases h <;> simp [inverse]

theorem eq_of_holds (h : ∀ c : Change α, c.Holds s → c.Holds t) : t = s := by
  ext a
  refine ⟨fun ha ↦ ?_, h (.add a)⟩
  by_contra hs
  exact h (.remove a) hs ha

end Change

def replay {α : Type} (s : Set α) (log : List (Change α)) : Set α := log.foldl Change.apply s

section Replay

variable {α : Type} {s t : Set α} {log log' : List (Change α)} {a : α}

@[simp] theorem replay_nil : replay s [] = s := rfl

@[simp] theorem replay_cons (c : Change α) : replay s (c :: log) = replay (c.apply s) log := rfl

@[simp] theorem replay_append : replay s (log ++ log') = replay (replay s log) log' :=
  List.foldl_append

theorem replay_union : replay (s ∪ t) log = replay s log ∪ replay t log := by
  induction log generalizing s t with
  | nil => rfl
  | cons c log ih => rw [replay_cons, Change.apply_union, ih]; rfl

theorem replay_union_of_kept (h : ∀ a, .remove a ∈ log → a ∉ s) :
    replay (s ∪ t) log = s ∪ replay t log := by
  induction log generalizing t with
  | nil => rfl
  | cons c log ih =>
    have hc : c.apply (s ∪ t) = s ∪ c.apply t := by
      cases c with
      | add a => exact Set.union_insert.symm
      | remove a =>
        have ha : a ∉ s := h a List.mem_cons_self
        rw [Change.apply_union, Change.apply, Set.sdiff_singleton_eq_self ha]
    rw [replay_cons, hc, ih fun a ha ↦ h a (List.mem_cons_of_mem c ha), replay_cons]

theorem replay_mono (h : s ⊆ t) : replay s log ⊆ replay t log := by
  rw [← Set.union_eq_self_of_subset_left h, replay_union]
  exact Set.subset_union_left

theorem replay_filter (p : α → Prop) [DecidablePred p] :
    replay (s ∩ {a | p a}) (log.filter fun c ↦ decide (p c.subject)) =
      replay s log ∩ {a | p a} := by
  induction log generalizing s with
  | nil => rfl
  | cons c log ih =>
    by_cases hc : p c.subject
    · have happly : c.apply (s ∩ {a | p a}) = c.apply s ∩ {a | p a} := by
        cases c with
        | add a => exact Set.insert_inter_of_mem hc |>.symm
        | remove a => exact Set.inter_sdiff_right_comm
      rw [List.filter_cons_of_pos (by simpa using hc), replay_cons, replay_cons, happly, ih]
    · have happly : c.apply s ∩ {a | p a} = s ∩ {a | p a} := by
        cases c with
        | add a => exact Set.insert_inter_of_notMem hc
        | remove a =>
          ext b
          have hb : p b → b ≠ a := fun h he ↦ hc (he ▸ h)
          simp only [Change.apply, Set.mem_inter_iff, Set.mem_sdiff, Set.mem_singleton_iff,
            Set.mem_ofPred_eq]
          tauto
      rw [List.filter_cons_of_neg (by simpa using hc), replay_cons, ← happly, ih]

theorem mem_replay_congr (h : a ∈ s ↔ a ∈ t) : a ∈ replay s log ↔ a ∈ replay t log := by
  induction log generalizing s t with
  | nil => exact h
  | cons c log ih => exact ih (Change.mem_apply_congr h)

theorem mem_replay_of_mentioned (h : ∃ c ∈ log, c.subject = a) :
    a ∈ replay s log ↔ a ∈ replay t log := by
  induction log generalizing s t with
  | nil => simp at h
  | cons c log ih =>
    by_cases hc : c.subject = a
    · subst hc
      rw [replay_cons, replay_cons]
      exact mem_replay_congr (c.mem_apply_subject s t)
    · obtain ⟨d, hd, rfl⟩ := h
      rcases List.mem_cons.mp hd with rfl | hd
      · exact absurd rfl hc
      · exact ih ⟨d, hd, rfl⟩

theorem mem_replay_of_not_mentioned (h : ∀ c ∈ log, c.subject ≠ a) :
    a ∈ replay s log ↔ a ∈ s := by
  induction log generalizing s with
  | nil => rfl
  | cons c log ih =>
    rw [replay_cons, ih (fun d hd ↦ h d (List.mem_cons_of_mem c hd)),
      Change.mem_apply_of_ne (h c List.mem_cons_self)]

theorem replay_suffix (s : Set α) (log log' : List (Change α)) :
    replay (replay s (log ++ log')) log' = replay s (log ++ log') := by
  ext a
  by_cases h : ∃ c ∈ log', c.subject = a
  · rw [replay_append]
    exact mem_replay_of_mentioned h
  · push Not at h
    exact mem_replay_of_not_mentioned h

end Replay

section Through

variable {α β : Type} (shows : α → Option β)

def Change.through : Change α → Option (Change β)
  | .add a => (shows a).map .add
  | .remove a => (shows a).map .remove

variable {shows} {s : Set α} {t : Set β} {log : List (Change α)} {a : α} {b : β}

theorem Change.mem_through (c : Change α) (h : b ∈ t ↔ a ∈ s)
    (hshows : shows c.subject = some b ↔ c.subject = a) :
    b ∈ ((c.through shows).elim t fun d ↦ d.apply t) ↔ a ∈ c.apply s := by
  cases c with
  | add x =>
    have hx : shows x = some b ↔ x = a := hshows
    cases hshow : shows x with
    | none => simp_all [Change.through, apply, eq_comm]
    | some y => simp_all [Change.through, apply, eq_comm]
  | remove x =>
    have hx : shows x = some b ↔ x = a := hshows
    cases hshow : shows x with
    | none => simp_all [Change.through, apply, eq_comm]
    | some y => simp_all [Change.through, apply, eq_comm]

theorem mem_replay_through (h : b ∈ t ↔ a ∈ s)
    (hlog : ∀ c ∈ log, shows c.subject = some b ↔ c.subject = a) :
    b ∈ replay t (log.filterMap (Change.through shows)) ↔ a ∈ replay s log := by
  induction log generalizing s t with
  | nil => exact h
  | cons c log ih =>
    have hc := c.mem_through h (hlog c List.mem_cons_self)
    have hrest : ∀ d ∈ log, shows d.subject = some b ↔ d.subject = a :=
      fun d hd ↦ hlog d (List.mem_cons_of_mem c hd)
    rw [List.filterMap_cons, replay_cons]
    cases hshow : c.through shows with
    | none =>
      rw [hshow] at hc
      exact ih hc hrest
    | some d =>
      rw [hshow] at hc
      exact ih hc hrest

theorem subject_through {c : Change α} {d : Change β} (h : c.through shows = some d) :
    shows c.subject = some d.subject := by
  cases c with
  | add x =>
    obtain ⟨y, hy, rfl⟩ := Option.map_eq_some_iff.mp h
    exact hy
  | remove x =>
    obtain ⟨y, hy, rfl⟩ := Option.map_eq_some_iff.mp h
    exact hy

theorem mentioned_of_mem_replay (h : a ∈ replay ∅ log) : ∃ c ∈ log, c.subject = a := by
  by_contra hnot
  push Not at hnot
  exact (mem_replay_of_not_mentioned hnot).mp h

/-- Where no two of the things that change look the same, what shows in the end is what there is
in the end, beside what was there and looks like none of them. -/
theorem mem_replay_shown (hdistinct : ∀ c ∈ log, ∀ d ∈ log, ∀ b, shows c.subject = some b →
      shows d.subject = some b → c.subject = d.subject) :
    b ∈ replay t (log.filterMap (Change.through shows)) ↔
      (∃ a ∈ replay ∅ log, shows a = some b) ∨
        b ∈ t ∧ ∀ c ∈ log, shows c.subject ≠ some b := by
  by_cases hmentioned : ∃ c ∈ log, shows c.subject = some b
  · obtain ⟨c, hc, hshow⟩ := hmentioned
    have hlog : ∀ d ∈ log, shows d.subject = some b ↔ d.subject = c.subject := fun d hd ↦
      ⟨fun hd' ↦ hdistinct d hd c hc b hd' hshow, fun heq ↦ heq ▸ hshow⟩
    have hstart : b ∈ t ↔ c.subject ∈ {_x : α | b ∈ t} := Iff.rfl
    rw [mem_replay_through hstart hlog, mem_replay_of_mentioned ⟨c, hc, rfl⟩]
    refine ⟨fun hmem ↦ .inl ⟨_, hmem, hshow⟩, ?_⟩
    rintro (⟨a, ha, hshown'⟩ | ⟨-, hnone⟩)
    · obtain ⟨d, hd, rfl⟩ := mentioned_of_mem_replay ha
      rwa [(hlog d hd).mp hshown'] at ha
    · exact absurd hshow (hnone c hc)
  · push Not at hmentioned
    have hnot : ∀ d ∈ log.filterMap (Change.through shows), d.subject ≠ b := by
      intro d hd heq
      obtain ⟨c, hc, hcd⟩ := List.mem_filterMap.mp hd
      exact hmentioned c hc (heq ▸ subject_through hcd)
    rw [mem_replay_of_not_mentioned hnot]
    refine ⟨fun hb ↦ .inr ⟨hb, hmentioned⟩, ?_⟩
    rintro (⟨a, ha, hshow⟩ | ⟨hb, -⟩)
    · obtain ⟨d, hd, rfl⟩ := mentioned_of_mem_replay ha
      exact absurd hshow (hmentioned d hd)
    · exact hb

end Through

end Collections
