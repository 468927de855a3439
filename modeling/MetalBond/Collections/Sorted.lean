import MetalBond.Collections.HashMap
import Mathlib.Data.Set.Function
import Mathlib.Order.Defs.LinearOrder

namespace Collections

section Pairs

variable {α : Type} {a b : α} {l : List α}

theorem sublist_pair_or (ha : a ∈ l) (hb : b ∈ l) (hne : a ≠ b) :
    [a, b].Sublist l ∨ [b, a].Sublist l := by
  obtain ⟨before, after, rfl⟩ := List.append_of_mem ha
  rcases List.mem_append.mp hb with hb | hb
  · exact .inr ((List.singleton_sublist.mpr hb).append
      (List.singleton_sublist.mpr List.mem_cons_self))
  · have hafter : b ∈ after := (List.mem_cons.mp hb).resolve_left hne.symm
    exact .inl (((List.singleton_sublist.mpr hafter).cons_cons a).trans
      (List.sublist_append_right before _))

theorem not_sublist_swap (hnodup : l.Nodup) (h : [a, b].Sublist l) : ¬ [b, a].Sublist l := by
  intro hswap
  induction l with
  | nil => cases h
  | cons x rest ih =>
    obtain ⟨hx, hrest⟩ := List.nodup_cons.mp hnodup
    cases h with
    | cons _ h =>
      cases hswap with
      | cons _ hswap => exact ih hrest h hswap
      | cons_cons _ _ => exact hx (h.subset (by simp))
    | cons_cons _ h =>
      cases hswap with
      | cons _ hswap => exact hx (hswap.subset (by simp))
      | cons_cons _ _ => exact hx (h.subset (by simp))

end Pairs

section SortBy

variable {α β : Type} [LinearOrder β] (key : α → β) {l l' : List α}

def sortBy (l : List α) : List α := l.mergeSort fun a b ↦ decide (key a ≤ key b)

theorem sortBy_perm : (sortBy key l).Perm l := List.mergeSort_perm ..

theorem trans_le (a b c : α) (hab : decide (key a ≤ key b)) (hbc : decide (key b ≤ key c)) :
    decide (key a ≤ key c) :=
  decide_eq_true ((of_decide_eq_true hab).trans (of_decide_eq_true hbc))

theorem total_le (a b : α) : decide (key a ≤ key b) || decide (key b ≤ key a) := by
  simpa using le_total (key a) (key b)

theorem pairwise_sortBy : (sortBy key l).Pairwise fun a b ↦ key a ≤ key b :=
  (List.pairwise_mergeSort (trans_le key) (total_le key) l).imp fun h ↦ of_decide_eq_true h

/-- Where the key tells the elements apart, the order of the input does not matter. -/
theorem sortBy_eq_of_perm (hperm : l.Perm l') (hkey : Set.InjOn key {a | a ∈ l}) :
    sortBy key l = sortBy key l' := by
  have hsorted : (sortBy key l).Perm (sortBy key l') :=
    (sortBy_perm key).trans (hperm.trans (sortBy_perm key).symm)
  refine hsorted.eq_of_pairwise (fun a b ha hb hab hba ↦ ?_) (pairwise_sortBy key)
    (pairwise_sortBy key)
  have ha : a ∈ l := (sortBy_perm key).subset ha
  have hb : b ∈ l := hperm.symm.subset ((sortBy_perm key).subset hb)
  exact hkey ha hb (le_antisymm hab hba)

theorem sublist_sortBy {a b : α} (hkey : key a = key b) (h : [a, b].Sublist l) :
    [a, b].Sublist (sortBy key l) := by
  refine List.pair_sublist_mergeSort (trans_le key) (total_le key) ?_ h
  simp [hkey]

/-- Two elements with one key stay in the order in which they come. -/
theorem sortBy_reverse_ne (hnodup : l.Nodup) {a b : α} (ha : a ∈ l) (hb : b ∈ l) (hne : a ≠ b)
    (hkey : key a = key b) : sortBy key l.reverse ≠ sortBy key l := by
  intro heq
  have hboth {a b : α} (hkey : key a = key b) (h : [a, b].Sublist l) : False := by
    have hsorted := sublist_sortBy key hkey h
    have hreverse : [b, a].Sublist (sortBy key l.reverse) :=
      sublist_sortBy key hkey.symm (List.reverse_sublist.mpr h)
    rw [heq] at hreverse
    exact not_sublist_swap ((sortBy_perm key).nodup_iff.mpr hnodup) hsorted hreverse
  rcases sublist_pair_or ha hb hne with h | h
  · exact hboth hkey h
  · exact hboth hkey.symm h

end SortBy

abbrev BTreeMap (K V : Type) [Ord K] := Std.ExtTreeMap K V

section SortedMap

variable {K V V' : Type} [DecidableEq K] [Ord K] [Std.TransOrd K] [Std.LawfulEqOrd K]

/-- What a loop leaves that inserts the entries which `f` makes of some keys. -/
def fill (f : K → Option V) (ks : List K) : BTreeMap K V :=
  ks.foldl (fun result k ↦ (f k).elim result (result.insert k)) ∅

theorem getElem?_foldl_elim (f : K → Option V) (ks : List K) (m : BTreeMap K V) (k : K) :
    (ks.foldl (fun result k ↦ (f k).elim result (result.insert k)) m)[k]? =
      if k ∈ ks then (f k).or m[k]? else m[k]? := by
  induction ks generalizing m with
  | nil => simp
  | cons k' ks ih =>
    rw [List.foldl_cons, ih]
    by_cases hk : k = k'
    · subst hk
      cases hf : f k <;> simp
    · have hcompare : compare k' k ≠ .eq := fun h ↦ hk (Std.LawfulEqOrd.eq_of_compare h).symm
      cases hf : f k' <;> simp [hk, Std.ExtTreeMap.getElem?_insert, hcompare]

theorem getElem?_fill (f : K → Option V) (ks : List K) (k : K) :
    (fill f ks)[k]? = if k ∈ ks then f k else none := by
  rw [fill, getElem?_foldl_elim]
  simp

theorem getElem?_fill_keys (ord : HashOrder) (f : V → Option V') (m : HashMap K V) (k : K) :
    (fill (fun k ↦ (m.lookup k).bind f) (ord.list m.keys))[k]? = (m.lookup k).bind f := by
  rw [getElem?_fill]
  split
  · rfl
  · next hk =>
    rw [ord.mem_list, Finmap.mem_keys, ← Finmap.lookup_eq_none] at hk
    rw [hk]
    rfl

end SortedMap

theorem lookup_eq_some_iff_mem {K V : Type} [DecidableEq K] {l : List (K × V)}
    (hnodup : (l.map Prod.fst).Nodup) {k : K} {v : V} : l.lookup k = some v ↔ (k, v) ∈ l := by
  induction l with
  | nil => simp
  | cons x rest ih =>
    obtain ⟨k', v'⟩ := x
    obtain ⟨hk', hrest⟩ := List.nodup_cons.mp hnodup
    rw [List.lookup_cons, List.mem_cons]
    by_cases hk : k = k'
    · subst hk
      have hnotMem : (k, v) ∉ rest := fun h ↦ hk' (List.mem_map.mpr ⟨(k, v), h, rfl⟩)
      simp [hnotMem, eq_comm]
    · have hbeq : (k == k') = false := by simpa using hk
      simp [hbeq, hk, ih hrest]

section Entries

variable {K V V' T : Type} [Ord K] [Std.TransOrd K] {text : K → T} {value : V → V'}

def entries (text : K → T) (value : V → V') (m : BTreeMap K V) : List (T × V') :=
  m.toList.map fun x ↦ (text x.1, value x.2)

theorem entries_inj (htext : Function.Injective text) (hvalue : Function.Injective value) :
    Function.Injective (entries text value) := by
  intro m m' h
  have hpair : Function.Injective fun x : K × V ↦ (text x.1, value x.2) := fun x y hxy ↦
    Prod.ext (htext (Prod.mk.inj hxy).1) (hvalue (Prod.mk.inj hxy).2)
  exact Std.ExtTreeMap.toList_inj.mp (List.map_injective_iff.mpr hpair h)

variable [Std.LawfulEqOrd K]

theorem mem_entries {m : BTreeMap K V} {x : T × V'} : x ∈ entries text value m ↔
    ∃ k v, m[k]? = some v ∧ x = (text k, value v) := by
  rw [entries, List.mem_map]
  constructor
  · rintro ⟨⟨k, v⟩, hmem, rfl⟩
    exact ⟨k, v, Std.ExtTreeMap.mem_toList_iff_getElem?_eq_some.mp hmem, rfl⟩
  · rintro ⟨k, v, hget, rfl⟩
    exact ⟨(k, v), Std.ExtTreeMap.mem_toList_iff_getElem?_eq_some.mpr hget, rfl⟩

theorem nodup_entries (htext : Function.Injective text) (m : BTreeMap K V) :
    ((entries text value m).map Prod.fst).Nodup := by
  have hkeys : (entries text value m).map Prod.fst = m.toList.map fun x ↦ text x.1 := by
    rw [entries, List.map_map]
    rfl
  rw [hkeys, List.Nodup, List.pairwise_map]
  refine Std.ExtTreeMap.distinct_keys_toList.imp fun hne heq ↦ hne ?_
  rw [htext heq]
  exact Std.ReflCmp.compare_self

theorem lookup_entries [DecidableEq T] (htext : Function.Injective text) (m : BTreeMap K V)
    (k : K) : (entries text value m).lookup (text k) = m[k]?.map value := by
  ext v'
  rw [lookup_eq_some_iff_mem (nodup_entries htext m), mem_entries, Option.map_eq_some_iff]
  constructor
  · rintro ⟨k', v, hget, heq⟩
    obtain ⟨hkey, rfl⟩ := Prod.mk.inj heq
    exact ⟨v, htext hkey ▸ hget, rfl⟩
  · rintro ⟨v, hget, rfl⟩
    exact ⟨k, v, hget, rfl⟩

end Entries

end Collections
