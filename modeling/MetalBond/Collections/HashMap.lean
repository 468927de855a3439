import Mathlib.Data.Finmap
import Mathlib.Data.Finset.Card
import Mathlib.Data.Finset.Dedup
import Mathlib.Data.Finset.Union
import Mathlib.Data.List.Nodup

namespace Collections

/-- A hash map, up to the order of its buckets. -/
abbrev HashMap (K V : Type) := Finmap fun _ : K ↦ V

/-- The iteration order of a hash collection. A program that iterates takes one as
an argument, and what is proved of it is proved for every order. -/
structure HashOrder where
  list : {α : Type} → Finset α → List α
  nodup : ∀ {α : Type} (s : Finset α), (list s).Nodup
  mem_list : ∀ {α : Type} (s : Finset α) (a : α), a ∈ list s ↔ a ∈ s

namespace HashOrder

attribute [simp] mem_list

noncomputable def toList : HashOrder where
  list := Finset.toList
  nodup := Finset.nodup_toList
  mem_list _ _ := Finset.mem_toList

noncomputable instance : Inhabited HashOrder := ⟨toList⟩

variable (ord : HashOrder) {α : Type}

def reverse : HashOrder where
  list s := (ord.list s).reverse
  nodup s := List.nodup_reverse.mpr (ord.nodup s)
  mem_list s a := by rw [List.mem_reverse, ord.mem_list]

theorem length_list (s : Finset α) : (ord.list s).length = s.card := by
  have hs : (⟨ord.list s, ord.nodup s⟩ : Finset α) = s := Finset.ext (ord.mem_list s)
  exact congrArg Finset.card hs

@[simp] theorem toFinset_list [DecidableEq α] (s : Finset α) : (ord.list s).toFinset = s := by
  ext a
  rw [List.mem_toFinset, ord.mem_list]

@[simp] theorem list_empty : ord.list (∅ : Finset α) = [] :=
  List.eq_nil_iff_forall_not_mem.mpr (by simp)

@[simp] theorem list_singleton (a : α) : ord.list {a} = [a] := by
  have hlen : (ord.list {a}).length = 1 := by rw [length_list, Finset.card_singleton]
  obtain ⟨b, hb⟩ := List.length_eq_one_iff.mp hlen
  have hmem : b ∈ ord.list {a} := by simp [hb]
  rw [hb, Finset.mem_singleton.mp ((ord.mem_list _ _).mp hmem)]

end HashOrder

theorem nodup_flatMap_of_tag {α β : Type} {l : List α} {f : α → List β} (tag : β → α)
    (hl : l.Nodup) (hf : ∀ a, (f a).Nodup) (ht : ∀ a, ∀ b ∈ f a, tag b = a) :
    (l.flatMap f).Nodup := by
  rw [List.nodup_flatMap]
  refine ⟨fun a _ ↦ hf a, hl.imp ?_⟩
  intro a a' hne b hb hb'
  exact hne ((ht a b hb).symm.trans (ht a' b hb'))

theorem exists_mem_take_reverse {α : Type} {l : List α} (hnd : l.Nodup) {n : ℕ} (hpos : 0 < n)
    (hlen : n < l.length) : ∃ x ∈ l.reverse.take n, x ∉ l.take n := by
  obtain ⟨l', x, rfl⟩ := List.eq_nil_or_concat l |>.resolve_left (by rintro rfl; simp at hlen)
  rw [List.concat_eq_append] at hnd hlen ⊢
  rw [List.length_append, List.length_singleton] at hlen
  have hx : x ∉ l' := by
    rw [List.nodup_append] at hnd
    exact fun hmem ↦ hnd.2.2 x hmem x (List.mem_singleton_self x) rfl
  refine ⟨x, ?_, fun hmem ↦ hx ?_⟩
  · obtain ⟨k, rfl⟩ := Nat.exists_eq_add_of_lt hpos
    simp
  · rw [List.take_append_of_le_length (by omega)] at hmem
    exact List.mem_of_mem_take hmem

namespace HashMap

variable {K V V' : Type} [DecidableEq K]

def filterMap (f : K → V → Option V') (m : HashMap K V) : HashMap K V' :=
  Finmap.keysLookupEquiv.symm
    ⟨(m.keys.filter fun k ↦ ((m.lookup k).bind (f k)).isSome, fun k ↦ (m.lookup k).bind (f k)), by
      intro k
      simp only [Finset.mem_filter, Finmap.mem_keys, iff_and_self, Option.isSome_bind]
      intro h
      rw [← Finmap.lookup_isSome]
      cases hm : m.lookup k <;> simp_all⟩

@[simp] theorem lookup_filterMap (f : K → V → Option V') (m : HashMap K V) (k : K) :
    (filterMap f m).lookup k = (m.lookup k).bind (f k) := by
  simp [filterMap]

@[simp] theorem insert_ne_empty (m : HashMap K V) (k : K) (v : V) : m.insert k v ≠ ∅ := by
  intro h
  have hlookup := Finmap.lookup_insert m (a := k) (b := v)
  rw [h, Finmap.lookup_empty] at hlookup
  cases hlookup

variable [EmptyCollection V]

/-- The value at a key, a missing entry read as an empty one. -/
def valueAt (m : HashMap K V) (k : K) : V := (m.lookup k).getD ∅

@[simp] theorem valueAt_empty (k : K) : valueAt (∅ : HashMap K V) k = ∅ := by simp [valueAt]

theorem valueAt_insert (m : HashMap K V) (k k' : K) (v : V) :
    valueAt (m.insert k v) k' = if k' = k then v else valueAt m k' := by
  by_cases h : k' = k
  · subst h; simp [valueAt]
  · simp [valueAt, h, Finmap.lookup_insert_of_ne]

def Full (m : HashMap K V) : Prop := ∀ k, m.lookup k ≠ some ∅

theorem full_empty : Full (∅ : HashMap K V) := by simp [Full]

theorem Full.mem_keys {m : HashMap K V} (h : Full m) (k : K) : k ∈ m.keys ↔ valueAt m k ≠ ∅ := by
  rw [Finmap.mem_keys, ← Finmap.lookup_isSome, valueAt]
  cases hk : m.lookup k with
  | none => simp
  | some v =>
    have hv : v ≠ ∅ := fun he ↦ h k (he ▸ hk)
    simpa using hv

theorem lookup_eq_some_iff {m : HashMap K V} {k : K} {v : V} (hv : v ≠ ∅) :
    m.lookup k = some v ↔ valueAt m k = v := by
  cases hk : m.lookup k with
  | none => simpa [valueAt, hk] using hv.symm
  | some v' => simp [valueAt, hk]

theorem Full.ext {m m' : HashMap K V} (h : Full m) (h' : Full m')
    (he : ∀ k, valueAt m k = valueAt m' k) : m = m' := by
  apply Finmap.ext_lookup
  intro k
  have hk := he k
  cases hm : m.lookup k with
  | none =>
    cases hm' : m'.lookup k with
    | none => rfl
    | some v =>
      have hv : v ≠ ∅ := fun hv ↦ h' k (hv ▸ hm')
      exact absurd (by simpa [valueAt, hm, hm'] using hk.symm) hv
  | some v =>
    have hv : v ≠ ∅ := fun hv ↦ h k (hv ▸ hm)
    exact ((lookup_eq_some_iff hv).mpr (by simpa [valueAt, hm] using hk.symm)).symm

theorem Full.insert {m : HashMap K V} (h : Full m) (k : K) {v : V} (hv : v ≠ ∅) :
    Full (m.insert k v) := by
  intro k' hk'
  by_cases hkk : k' = k
  · subst hkk; rw [Finmap.lookup_insert] at hk'; exact hv (Option.some.inj hk')
  · rw [Finmap.lookup_insert_of_ne m hkk] at hk'; exact h k' hk'

variable [DecidableEq V]

def put (m : HashMap K V) (k : K) (v : V) : HashMap K V :=
  if v = ∅ then m.erase k else m.insert k v

theorem lookup_put (m : HashMap K V) (k k' : K) (v : V) :
    (put m k v).lookup k' = if k' = k then (if v = ∅ then none else some v) else m.lookup k' := by
  by_cases hk : k' = k
  · subst hk; by_cases hv : v = ∅ <;> simp [put, hv]
  · by_cases hv : v = ∅ <;>
      simp [put, hk, hv, Finmap.lookup_insert_of_ne, Finmap.lookup_erase_ne]

@[simp] theorem valueAt_put (m : HashMap K V) (k k' : K) (v : V) :
    valueAt (put m k v) k' = if k' = k then v else valueAt m k' := by
  simp only [valueAt, lookup_put]
  by_cases hk : k' = k <;> by_cases hv : v = ∅ <;> simp [hk, hv]

theorem Full.put {m : HashMap K V} (h : Full m) (k : K) (v : V) : Full (put m k v) := by
  intro k' hk'
  rw [lookup_put] at hk'
  by_cases hk : k' = k <;> by_cases hv : v = ∅
  all_goals simp_all [Full]

def prune (f : V' → V) (m : HashMap K V') : HashMap K V :=
  filterMap (fun _ v ↦ if f v = ∅ then none else some (f v)) m

theorem valueAt_prune [EmptyCollection V'] {f : V' → V} (hf : f ∅ = ∅) (m : HashMap K V')
    (k : K) : valueAt (prune f m) k = f (valueAt m k) := by
  simp only [valueAt, prune, lookup_filterMap]
  cases m.lookup k with
  | none => simp [hf]
  | some v => by_cases hv : f v = ∅ <;> simp [hv]

@[simp] theorem prune_empty (f : V' → V) : prune f (∅ : HashMap K V') = ∅ :=
  Finmap.ext_lookup fun k ↦ by simp [prune]

theorem full_prune (f : V' → V) (m : HashMap K V') : Full (prune f m) := by
  intro k hk
  simp only [prune, lookup_filterMap] at hk
  cases hm : m.lookup k with
  | none => simp [hm] at hk
  | some v => by_cases hv : f v = ∅ <;> simp_all

end HashMap

end Collections
