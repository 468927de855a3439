import MetalBond.Collections.HashMap

namespace Collections.HashMap

variable {K V R : Type} [DecidableEq K] [EmptyCollection V] [DecidableEq V]

/-- What a loop over the entries of a map leaves: what it collected, the keys whose values
have become empty, and the map. -/
structure Sweep (K V R : Type) where
  collected : List R
  emptied : List K
  map : HashMap K V

/-- Visit the entries of the keys, collect something at each and replace its value. -/
def sweep (f : K → V → List R × V) : List K → HashMap K V → Sweep K V R
  | [], m => ⟨[], [], m⟩
  | k :: ks, m =>
    match m.lookup k with
    | none => sweep f ks m
    | some v =>
      let (collected, v') := f k v
      let rest := sweep f ks (m.insert k v')
      ⟨collected ++ rest.collected, if v' = ∅ then k :: rest.emptied else rest.emptied, rest.map⟩

def Sweep.cleanup (s : Sweep K V R) : HashMap K V := s.emptied.foldl (·.erase) s.map

omit [EmptyCollection V] [DecidableEq V] in
theorem lookup_foldl_erase (ks : List K) (m : HashMap K V) (k : K) :
    (ks.foldl (·.erase) m).lookup k = if k ∈ ks then none else m.lookup k := by
  induction ks generalizing m with
  | nil => simp
  | cons k' ks ih =>
    rw [List.foldl_cons, ih]
    by_cases hk : k = k'
    · subst hk
      simp
    · simp [hk, Finmap.lookup_erase_ne]

variable {f : K → V → List R × V} {ks : List K} {m : HashMap K V} {k : K}

theorem collected_sweep (hnodup : ks.Nodup) :
    (sweep f ks m).collected =
      ks.flatMap fun k ↦ ((m.lookup k).map fun v ↦ (f k v).1).getD [] := by
  induction ks generalizing m with
  | nil => rfl
  | cons k ks ih =>
    obtain ⟨hk, hnodup⟩ := List.nodup_cons.mp hnodup
    rw [sweep, List.flatMap_cons]
    cases hm : m.lookup k with
    | none => simp [ih hnodup]
    | some v =>
      have hrest : ∀ k' ∈ ks, (m.insert k (f k v).2).lookup k' = m.lookup k' := fun k' hk' ↦
        Finmap.lookup_insert_of_ne m (fun he ↦ hk (he ▸ hk'))
      simp only [ih hnodup, Option.map_some, Option.getD_some]
      congr 1
      exact List.flatMap_congr fun k' hk' ↦ by rw [hrest k' hk']

theorem lookup_sweep (hnodup : ks.Nodup) :
    (sweep f ks m).map.lookup k =
      if k ∈ ks then (m.lookup k).map fun v ↦ (f k v).2 else m.lookup k := by
  induction ks generalizing m with
  | nil => simp [sweep]
  | cons k' ks ih =>
    obtain ⟨hk', hnodup⟩ := List.nodup_cons.mp hnodup
    rw [sweep]
    cases hm : m.lookup k' with
    | none =>
      simp only [ih hnodup]
      by_cases hk : k = k'
      · subst hk
        simp [hk', hm]
      · simp [hk]
    | some v =>
      simp only [ih hnodup]
      by_cases hk : k = k'
      · subst hk
        simp [hk', hm]
      · simp [hk, Finmap.lookup_insert_of_ne]

theorem mem_emptied_sweep (hnodup : ks.Nodup) :
    k ∈ (sweep f ks m).emptied ↔ k ∈ ks ∧ ∃ v, m.lookup k = some v ∧ (f k v).2 = ∅ := by
  induction ks generalizing m with
  | nil => simp [sweep]
  | cons k' ks ih =>
    have hk' : k' ∉ ks := (List.nodup_cons.mp hnodup).1
    replace hnodup : ks.Nodup := (List.nodup_cons.mp hnodup).2
    rw [sweep]
    cases hm : m.lookup k' with
    | none =>
      simp only [ih hnodup, List.mem_cons]
      by_cases hk : k = k'
      · subst hk
        simp [hk', hm]
      · simp [hk]
    | some v =>
      by_cases hk : k = k'
      · subst hk
        by_cases hv : (f k v).2 = ∅
        · simp [hv, hm]
        · simp [hv, hm, ih hnodup, hk']
      · by_cases hv : (f k' v).2 = ∅
        · simp [hv, ih hnodup, hk, Finmap.lookup_insert_of_ne]
        · simp [hv, ih hnodup, hk, Finmap.lookup_insert_of_ne]

/-- A loop over all entries that maps each value by `g` and cleans up leaves the pruned map. -/
theorem cleanup_sweep (ord : HashOrder) {g : V → V} (hg : ∀ k v, (f k v).2 = g v) :
    (sweep f (ord.list m.keys) m).cleanup = prune g m := by
  apply Finmap.ext_lookup
  intro k
  have hnodup := ord.nodup m.keys
  have hkeys : k ∈ ord.list m.keys ↔ (m.lookup k).isSome := by
    rw [ord.mem_list, Finmap.mem_keys, Finmap.lookup_isSome]
  simp only [Sweep.cleanup, lookup_foldl_erase, mem_emptied_sweep hnodup, lookup_sweep hnodup, hkeys,
    prune, lookup_filterMap]
  cases m.lookup k with
  | none => simp
  | some v => by_cases hv : g v = ∅ <;> simp [hg, hv]

section Collect

variable {V V' : Type}

/-- What a loop over the entries of a map leaves that builds up another one: the entries that
`f` makes of them. -/
def collect (ord : HashOrder) (f : K → V → Option V') (m : HashMap K V) : HashMap K V' :=
  (ord.list m.keys).foldl (fun result k ↦ ((m.lookup k).bind (f k)).elim result (result.insert k)) ∅

theorem lookup_foldl_elim (f : K → Option V') (ks : List K) (m : HashMap K V') (k : K) :
    (ks.foldl (fun result k ↦ (f k).elim result (result.insert k)) m).lookup k =
      if k ∈ ks then (f k).or (m.lookup k) else m.lookup k := by
  induction ks generalizing m with
  | nil => simp
  | cons k' ks ih =>
    rw [List.foldl_cons, ih]
    by_cases hk : k = k'
    · subst hk
      cases hf : f k <;> simp
    · cases hf : f k' <;> simp [hk, Finmap.lookup_insert_of_ne]

@[simp] theorem lookup_collect (ord : HashOrder) (f : K → V → Option V') (m : HashMap K V) (k : K) :
    (collect ord f m).lookup k = (m.lookup k).bind (f k) := by
  rw [collect, lookup_foldl_elim fun k ↦ (m.lookup k).bind (f k)]
  split
  · simp
  · next hk =>
    rw [ord.mem_list, Finmap.mem_keys, ← Finmap.lookup_eq_none] at hk
    rw [hk]
    rfl

@[simp] theorem collect_empty (ord : HashOrder) (f : K → V → Option V') : collect ord f ∅ = ∅ :=
  Finmap.ext_lookup fun k ↦ by simp

end Collect

end Collections.HashMap
