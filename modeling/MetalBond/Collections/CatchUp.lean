import MetalBond.Collections.Replay

namespace Collections

/-- A follower that is brought up to date with a leader's set by a snapshot and by the
leader's log. The log entries in `pending` are still on their way. -/
structure CatchUp (α : Type) where
  leader : Set α
  pending : List (Change α)
  follower : Set α
  /-- What is left to send of the snapshot, once it was taken. -/
  snapshot : Option (Set α)

namespace CatchUp

variable {α : Type}

def told (c : CatchUp α) : Set α := c.follower ∪ c.snapshot.getD ∅

/-- Before the snapshot the follower, brought up to date, knows nothing false; after it,
it knows everything. -/
structure Sound (c : CatchUp α) : Prop where
  log : replay c.leader c.pending = c.leader
  before : c.snapshot = none → replay c.follower c.pending ⊆ c.leader
  after : c.snapshot.isSome → replay c.told c.pending = c.leader

def publish (changes : List (Change α)) (c : CatchUp α) : CatchUp α :=
  { c with leader := replay c.leader changes, pending := c.pending ++ changes }

def takeSnapshot (c : CatchUp α) : CatchUp α := { c with snapshot := some c.leader }

def sendSnapshot (a : α) (rest : Set α) (c : CatchUp α) : CatchUp α :=
  { c with follower := insert a c.follower, snapshot := some rest }

def deliver (d : Change α) (log : List (Change α)) (c : CatchUp α) : CatchUp α :=
  { c with follower := d.apply c.follower, pending := log }

def skip (log : List (Change α)) (c : CatchUp α) : CatchUp α := { c with pending := log }

variable {c : CatchUp α}

theorem Sound.publish (h : c.Sound) (changes : List (Change α)) : (c.publish changes).Sound where
  log := by
    have hlog : replay c.leader (c.pending ++ changes) = replay c.leader changes := by
      rw [replay_append, h.log]
    simp only [CatchUp.publish]
    ext a
    by_cases hm : ∃ d ∈ c.pending ++ changes, d.subject = a
    · rw [mem_replay_of_mentioned (t := c.leader) hm, hlog]
    · push Not at hm
      exact mem_replay_of_not_mentioned hm
  before hs := by
    simp only [CatchUp.publish, replay_append]
    exact replay_mono (h.before hs)
  after hs := by
    have ha := h.after hs
    simp only [CatchUp.publish, told, replay_append] at ha ⊢
    rw [ha]

theorem Sound.takeSnapshot (h : c.Sound) (hs : c.snapshot = none) : c.takeSnapshot.Sound where
  log := h.log
  before hn := by cases hn
  after _ := by
    simp only [CatchUp.takeSnapshot, told, Option.getD_some]
    rw [replay_union, h.log, Set.union_eq_right]
    exact h.before hs

theorem Sound.sendSnapshot (h : c.Sound) {a : α} {rest : Set α}
    (hs : c.snapshot = some (insert a rest)) : (c.sendSnapshot a rest).Sound where
  log := h.log
  before hn := by cases hn
  after _ := by
    have ha := h.after (by rw [hs]; rfl)
    simp only [told, hs, Option.getD_some] at ha
    simpa only [CatchUp.sendSnapshot, told, Option.getD_some, Set.insert_union,
      Set.union_insert] using ha

theorem Sound.log_tail (h : c.Sound) {d : Change α} {log : List (Change α)}
    (hp : c.pending = d :: log) : replay c.leader log = c.leader := by
  have hlog := h.log
  rw [hp, replay_cons] at hlog
  have hsuffix := replay_suffix c.leader [d] log
  rwa [List.singleton_append, replay_cons, hlog] at hsuffix

/-- A delivered change must not be a removal that the snapshot is still going to undo. -/
theorem Sound.deliver (h : c.Sound) {d : Change α} {log : List (Change α)}
    (hp : c.pending = d :: log)
    (hd : ∀ a, d = .remove a → a ∉ c.snapshot.getD ∅) : (c.deliver d log).Sound where
  log := h.log_tail hp
  before hs := by simpa only [CatchUp.deliver, hp, replay_cons] using h.before hs
  after hs := by
    have ha := h.after hs
    rw [hp, replay_cons] at ha
    have htold : (c.deliver d log).told = d.apply c.told := by
      cases d with
      | add a => exact Set.insert_union
      | remove a =>
        have hn : c.snapshot.getD ∅ \ {a} = c.snapshot.getD ∅ :=
          Set.sdiff_singleton_eq_self (hd a rfl)
        simp only [told, CatchUp.deliver, Change.apply, Set.union_sdiff_distrib, hn]
    rw [htold]
    exact ha

/-- A change that is not delivered must not be news: after the snapshot it repeats what the
follower was told, before it only an addition or the removal of something never told. -/
theorem Sound.skip (h : c.Sound) {d : Change α} {log : List (Change α)}
    (hp : c.pending = d :: log)
    (hadd : ∀ a, d = .add a → c.snapshot.isSome → a ∈ c.told)
    (hrem : ∀ a, d = .remove a → a ∉ c.told) : (c.skip log).Sound where
  log := h.log_tail hp
  before hs := by
    have hb := h.before hs
    rw [hp, replay_cons] at hb
    refine Set.Subset.trans (replay_mono ?_) hb
    cases d with
    | add a => exact Set.subset_insert a _
    | remove a =>
      have ha : a ∉ c.follower := fun hm ↦ hrem a rfl (Or.inl hm)
      exact (Set.sdiff_singleton_eq_self ha).ge
  after hs := by
    have ha := h.after hs
    rw [hp, replay_cons] at ha
    have htold : d.apply c.told = c.told := by
      cases d with
      | add a => exact Set.insert_eq_of_mem (hadd a rfl hs)
      | remove a => exact Set.sdiff_singleton_eq_self (hrem a rfl)
    rwa [htold] at ha

/-- When nothing is on its way, the follower has the leader's set. -/
theorem Sound.follower_eq (h : c.Sound) (hp : c.pending = []) (hs : c.snapshot = some ∅) :
    c.follower = c.leader := by
  have ha := h.after (by rw [hs]; rfl)
  simpa only [hp, replay_nil, told, hs, Option.getD_some, Set.union_empty] using ha

end CatchUp

end Collections
