import Mathlib.Data.List.DropRight

namespace Collections

def hexDigits : List Char := (List.range 16).map Nat.digitChar

theorem digitChar_inj {d e : ℕ} (hd : d < 16) (he : e < 16) (h : d.digitChar = e.digitChar) :
    d = e := by
  have hall : ∀ d < 16, ∀ e < 16, d.digitChar = e.digitChar → d = e := by decide
  exact hall d hd e he h

variable {b m n : ℕ}

theorem mem_toDigits (hb : 1 < b) (hb' : b ≤ 16) {c : Char} (h : c ∈ Nat.toDigits b n) :
    c ∈ hexDigits := by
  have hdigit {d : ℕ} (hd : d < b) : d.digitChar ∈ hexDigits :=
    List.mem_map_of_mem (List.mem_range.mpr (by omega))
  induction n using Nat.strong_induction_on with
  | _ n ih =>
    rw [Nat.toDigits_eq_if hb] at h
    split at h
    · next hn =>
      rw [List.mem_singleton] at h
      exact h ▸ hdigit hn
    · next hn =>
      rcases List.mem_append.mp h with h | h
      · exact ih (n / b) (Nat.div_lt_self (by omega) hb) h
      · rw [List.mem_singleton] at h
        exact h ▸ hdigit (Nat.mod_lt n (by omega))

theorem toDigits_inj (hb : 1 < b) (hb' : b ≤ 16) (h : Nat.toDigits b m = Nat.toDigits b n) :
    m = n := by
  induction m using Nat.strong_induction_on generalizing n with
  | _ m ih =>
    rw [Nat.toDigits_eq_if hb, Nat.toDigits_eq_if (n := n) hb] at h
    split at h
    · next hm =>
      split at h
      · next hn =>
        exact digitChar_inj (by omega) (by omega) (List.singleton_inj.mp h)
      · have hlen := congrArg List.length h
        have hpos : 0 < (Nat.toDigits b (n / b)).length := Nat.length_toDigits_pos
        simp only [List.length_append, List.length_singleton] at hlen
        omega
    · next hm =>
      split at h
      · have hlen := congrArg List.length h
        have hpos : 0 < (Nat.toDigits b (m / b)).length := Nat.length_toDigits_pos
        simp only [List.length_append, List.length_singleton] at hlen
        omega
      · next hn =>
        obtain ⟨hdigits, hlast⟩ := List.append_inj' h rfl
        have hdiv := ih (m / b) (Nat.div_lt_self (by omega) hb) hdigits
        have hm' := Nat.mod_lt m (show b > 0 by omega)
        have hn' := Nat.mod_lt n (show b > 0 by omega)
        have hmod := digitChar_inj (by omega) (by omega) (List.singleton_inj.mp hlast)
        rw [← Nat.div_add_mod m b, ← Nat.div_add_mod n b, hdiv, hmod]

variable {α : Type} {sep : α}

theorem mem_intercalate {fields : List (List α)} {x : α} (h : x ∈ [sep].intercalate fields) :
    x = sep ∨ ∃ f ∈ fields, x ∈ f := by
  induction fields with
  | nil => simp at h
  | cons f rest ih =>
    cases rest with
    | nil => exact .inr ⟨f, List.mem_singleton_self f, by simpa using h⟩
    | cons g rest =>
      rw [List.intercalate_cons_cons, List.append_assoc, List.mem_append] at h
      rcases h with h | h
      · exact .inr ⟨f, List.mem_cons_self, h⟩
      · rcases List.mem_cons.mp h with h | h
        · exact .inl h
        · rcases ih h with h | ⟨g', hg', h⟩
          · exact .inl h
          · exact .inr ⟨g', List.mem_cons_of_mem f hg', h⟩

theorem cut_inj {xs ys xs' ys' : List α} (hxs : sep ∉ xs) (hxs' : sep ∉ xs')
    (h : xs ++ sep :: ys = xs' ++ sep :: ys') : xs = xs' ∧ ys = ys' := by
  induction xs generalizing xs' with
  | nil =>
    cases xs' with
    | nil => exact ⟨rfl, List.tail_eq_of_cons_eq h⟩
    | cons x xs' => exact absurd (List.head_eq_of_cons_eq h) fun he ↦ hxs' (by simp [he])
  | cons x xs ih =>
    cases xs' with
    | nil => exact absurd (List.head_eq_of_cons_eq h) fun he ↦ hxs (by simp [he])
    | cons x' xs' =>
      obtain ⟨hhead, htail⟩ := List.cons_eq_cons.mp h
      obtain ⟨hrest, hys⟩ := ih (fun hmem ↦ hxs (List.mem_cons_of_mem x hmem))
        (fun hmem ↦ hxs' (List.mem_cons_of_mem x' hmem)) htail
      exact ⟨by rw [hhead, hrest], hys⟩

theorem intercalate_inj [DecidableEq α] {fields fields' : List (List α)}
    (hfree : ∀ f ∈ fields, sep ∉ f) (hfree' : ∀ f ∈ fields', sep ∉ f) (hne : fields ≠ [])
    (hne' : fields' ≠ []) (h : [sep].intercalate fields = [sep].intercalate fields') :
    fields = fields' := by
  rw [← List.splitOn_intercalate sep hfree hne, h, List.splitOn_intercalate sep hfree' hne']

def side (words : List (List α)) : List (List α) := if words = [] then [[]] else words

def elided (sep : α) (left right : List (List α)) : List α :=
  [sep].intercalate left ++ sep :: sep :: [sep].intercalate right

/-- The words of a text of `n` words, of which those left out are all `filler`. -/
def restored [DecidableEq α] (n : ℕ) (filler : List α) (fields : List (List α)) : List (List α) :=
  if [] ∈ fields then
    let left := fields.takeWhile (· ≠ [])
    let right := fields.rtakeWhile (· ≠ [])
    left ++ .replicate (n - left.length - right.length) filler ++ right
  else fields

theorem takeWhile_side {words rest : List (List α)} (hwords : ∀ w ∈ words, w ≠ []) :
    (side words ++ [] :: rest).takeWhile (· ≠ []) = words := by
  rw [side]
  split
  · next h => simp [h]
  · rw [List.takeWhile_append_of_pos fun w hw ↦ by simpa using hwords w hw]
    simp

theorem reverse_side (words : List (List α)) : (side words).reverse = side words.reverse := by
  rw [side, side]
  split <;> simp_all

theorem rtakeWhile_side {words rest : List (List α)} (hwords : ∀ w ∈ words, w ≠ []) :
    (rest ++ [] :: side words).rtakeWhile (· ≠ []) = words := by
  have hreverse : (rest ++ [] :: side words).reverse = side words.reverse ++ [] :: rest.reverse := by
    simp [reverse_side]
  rw [List.rtakeWhile, hreverse, takeWhile_side fun w hw ↦ hwords w (List.mem_reverse.mp hw),
    List.reverse_reverse]

section Restored

variable [DecidableEq α] {left right : List (List α)}

theorem splitOn_side {words : List (List α)} (hfree : ∀ w ∈ words, sep ∉ w) :
    ([sep].intercalate words).splitOn sep = side words := by
  rw [side]
  split
  · next h =>
    rw [h]
    simp
  · next hne => exact List.splitOn_intercalate sep hfree hne

theorem splitOn_elided (hleft : ∀ w ∈ left, sep ∉ w) (hright : ∀ w ∈ right, sep ∉ w) :
    (elided sep left right).splitOn sep = side left ++ [] :: side right := by
  have hsecond : (sep :: [sep].intercalate right).splitOn sep = [] :: side right := by
    rw [← splitOn_side hright]
    exact List.splitOn_append_cons_self [] _
  rw [elided, List.splitOn_append_cons_self, splitOn_side hleft, hsecond]

theorem restored_words {n : ℕ} {filler : List α} {words : List (List α)}
    (hwords : ∀ w ∈ words, w ≠ []) : restored n filler words = words :=
  if_neg fun h ↦ hwords [] h rfl

theorem restored_elided {k : ℕ} {filler : List α} (hleft : ∀ w ∈ left, w ≠ [])
    (hright : ∀ w ∈ right, w ≠ []) :
    restored (left.length + k + right.length) filler (side left ++ [] :: side right) =
      left ++ .replicate k filler ++ right := by
  have hempty : [] ∈ side left ++ [] :: side right := by simp
  simp only [restored, if_pos hempty, takeWhile_side hleft, rtakeWhile_side hright]
  rw [show left.length + k + right.length - left.length - right.length = k by omega]

end Restored

end Collections
