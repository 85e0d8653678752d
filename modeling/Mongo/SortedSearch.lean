import Mathlib

/-! Searching a list that a predicate holds on a prefix of, as `upper_bound` and `lower_bound`
search a sorted container: the position found is the length of the `takeWhile`, the elements
before it are the ones the predicate holds of, and those from it are the others. -/

namespace SortedSearch

variable {α : Type*} {p : α → Bool}

/-- `p` holds on a prefix of `l`: of two elements in order, `p` of the later gives `p` of the
earlier. -/
def PrefixClosed (p : α → Bool) (l : List α) : Prop := l.Pairwise (fun a b => p b → p a)

theorem PrefixClosed.of_cons {a : α} {l : List α} (h : PrefixClosed p (a :: l)) :
    PrefixClosed p l :=
  (List.pairwise_cons.mp h).2

/-- Past an element `p` fails on, it fails everywhere. -/
theorem PrefixClosed.false_of_cons {a : α} {l : List α} (h : PrefixClosed p (a :: l))
    (ha : p a = false) : ∀ b ∈ l, p b = false := by
  intro b hb
  cases hpb : p b
  · rfl
  · have := (List.pairwise_cons.mp h).1 b hb hpb
    rw [ha] at this
    exact absurd this (by simp)

theorem takeWhile_eq_filter : ∀ {l : List α}, PrefixClosed p l → l.takeWhile p = l.filter p
  | [], _ => rfl
  | a :: l, h => by
    cases ha : p a
    · have hnone := h.false_of_cons ha
      rw [List.takeWhile_cons_of_neg (by simp [ha]), List.filter_cons_of_neg (by simp [ha]),
        List.filter_eq_nil_iff.mpr (fun b hb => by simp [hnone b hb])]
    · rw [List.takeWhile_cons_of_pos ha, List.filter_cons_of_pos ha,
        takeWhile_eq_filter h.of_cons]

theorem dropWhile_eq_filter : ∀ {l : List α}, PrefixClosed p l →
    l.dropWhile p = l.filter (fun a => !p a)
  | [], _ => rfl
  | a :: l, h => by
    cases ha : p a
    · have hnone := h.false_of_cons ha
      rw [List.dropWhile_cons_of_neg (by simp [ha]), List.filter_cons_of_pos (by simp [ha]),
        List.filter_eq_self.mpr (fun b hb => by simp [hnone b hb])]
    · rw [List.dropWhile_cons_of_pos ha, List.filter_cons_of_neg (by simp [ha]),
        dropWhile_eq_filter h.of_cons]

/-- The position of the first element `p` fails on counts the elements `p` holds of. -/
theorem length_takeWhile {l : List α} (h : PrefixClosed p l) :
    (l.takeWhile p).length = l.countP p := by
  rw [takeWhile_eq_filter h, List.countP_eq_length_filter]

/-- The elements a search passes over come first; the rest start at its position. -/
theorem dropWhile_eq_drop (l : List α) : l.dropWhile p = l.drop (l.takeWhile p).length := by
  have h := List.takeWhile_append_dropWhile (p := p) (l := l)
  conv => rhs; arg 2; rw [← h]
  rw [List.drop_left]

/-- What a search that stops at the first element `p` fails on finds there. -/
theorem getElem?_length_takeWhile : ∀ (l : List α),
    l[(l.takeWhile p).length]? = (l.dropWhile p).head?
  | [] => rfl
  | a :: l => by
    cases ha : p a
    · simp [List.takeWhile_cons_of_neg, List.dropWhile_cons_of_neg, ha]
    · simp only [List.takeWhile_cons_of_pos ha, List.dropWhile_cons_of_pos ha, List.length_cons,
        List.getElem?_cons_succ]
      exact getElem?_length_takeWhile l

theorem filter_eq_take : ∀ {l : List α}, PrefixClosed p l → l.filter p = l.take (l.countP p)
  | [], _ => rfl
  | a :: l, h => by
    cases ha : p a
    · have hnone := h.false_of_cons ha
      have hzero : l.countP p = 0 := List.countP_eq_zero.mpr fun b hb => by simp [hnone b hb]
      rw [List.filter_cons_of_neg (by simp [ha]), List.countP_cons_of_neg (by simp [ha]), hzero,
        List.filter_eq_nil_iff.mpr (fun b hb => by simp [hnone b hb])]
      rfl
    · rw [List.filter_cons_of_pos ha, List.countP_cons_of_pos ha, List.take_succ_cons,
        filter_eq_take h.of_cons]

/-- The elements from position `k` on that `p` holds of are a prefix of them, as many as `p`
holds of past the first `k`. -/
theorem filter_drop : ∀ {l : List α}, PrefixClosed p l → ∀ k,
    (l.drop k).filter p = (l.drop k).take (l.countP p - k)
  | l, h, 0 => by simpa using filter_eq_take h
  | [], _, _ + 1 => by simp
  | a :: l, h, k + 1 => by
    cases ha : p a
    · -- nothing from `a` on is kept
      have hnone := h.false_of_cons ha
      have hzero : l.countP p = 0 := List.countP_eq_zero.mpr fun b hb => by simp [hnone b hb]
      rw [List.drop_succ_cons, List.countP_cons_of_neg (by simp [ha]), hzero, Nat.zero_sub,
        List.take_zero, List.filter_eq_nil_iff]
      intro b hb
      simp [hnone b (List.mem_of_mem_drop hb)]
    · rw [List.drop_succ_cons, List.countP_cons_of_pos ha, Nat.add_sub_add_right]
      exact filter_drop h.of_cons k

/-- The first element a filter keeps comes, in `l`, before every other element it keeps. -/
theorem head?_filter_pairwise {R : α → α → Prop} {q : α → Bool} : ∀ {l : List α} {n : α},
    l.Pairwise R → (l.filter q).head? = some n → ∀ e ∈ l, q e → e = n ∨ R n e
  | [], _, _, h, _, _, _ => by simp at h
  | a :: l, n, hl, h, e, he, hq => by
    obtain ⟨ha, hl⟩ := List.pairwise_cons.mp hl
    cases hqa : q a
    · -- `a` is skipped: the first kept element lies in the tail
      rw [List.filter_cons_of_neg (by simp [hqa])] at h
      rcases List.mem_cons.mp he with rfl | he
      · rw [hqa] at hq
        cases hq
      · exact head?_filter_pairwise hl h e he hq
    · rw [List.filter_cons_of_pos hqa, List.head?_cons, Option.some.injEq] at h
      subst h
      rcases List.mem_cons.mp he with rfl | he
      · exact .inl rfl
      · exact .inr (ha e he)

section Sorted

variable {β κ : Type*} [LinearOrder κ] {key : β → κ} {l : List β}

theorem prefixClosed_key_le (h : l.Pairwise (fun a b => key a < key b)) (k : κ) :
    PrefixClosed (fun x => decide (key x ≤ k)) l :=
  h.imp fun hab hb => by
    simp only [decide_eq_true_eq] at hb ⊢
    exact le_trans (le_of_lt hab) hb

theorem prefixClosed_key_lt (h : l.Pairwise (fun a b => key a < key b)) (k : κ) :
    PrefixClosed (fun x => decide (key x < k)) l :=
  h.imp fun hab hb => by
    simp only [decide_eq_true_eq] at hb ⊢
    exact lt_trans hab hb

/-- On a list in increasing order of `key`, `upper_bound(k)` finds the first element whose key
is above `k`. -/
theorem getElem?_takeWhile_key_le (h : l.Pairwise (fun a b => key a < key b)) (k : κ) :
    l[(l.takeWhile (fun x => decide (key x ≤ k))).length]? =
      (l.filter (fun x => decide (k < key x))).head? := by
  rw [getElem?_length_takeWhile, dropWhile_eq_filter (prefixClosed_key_le h k)]
  congr 2
  funext x
  by_cases hx : k < key x
  · simp [hx, not_le.mpr hx]
  · simp [hx, not_lt.mp hx]

end Sorted

section Emplace

variable {β κ : Type*} [LinearOrder κ] (key : β → κ)

/-- `std::map::emplace` on a list in increasing order of `key`: `x` goes before the first element
whose key is above its own, and nothing changes when an element has its key. -/
def emplaceBy (x : β) : List β → List β
  | [] => [x]
  | y :: ys =>
    if key y < key x then y :: emplaceBy x ys
    else if key y = key x then y :: ys
    else x :: y :: ys

variable {key}

theorem mem_emplaceBy {x z : β} : ∀ {l : List β}, z ∈ emplaceBy key x l → z = x ∨ z ∈ l
  | [], h => .inl (List.mem_singleton.mp h)
  | y :: ys, h => by
    unfold emplaceBy at h
    split at h
    · rcases List.mem_cons.mp h with rfl | h
      · exact .inr List.mem_cons_self
      · rcases mem_emplaceBy h with rfl | h
        · exact .inl rfl
        · exact .inr (List.mem_cons_of_mem y h)
    · split at h
      · exact .inr h
      · exact List.mem_cons.mp h

/-- When no element has the key of `x`, `emplace` adds `x` and keeps every element. -/
theorem mem_emplaceBy_iff {x z : β} : ∀ {l : List β}, (∀ y ∈ l, key y ≠ key x) →
    (z ∈ emplaceBy key x l ↔ z = x ∨ z ∈ l)
  | [], _ => by simp [emplaceBy]
  | y :: ys, hne => by
    have hy : key y ≠ key x := hne y List.mem_cons_self
    unfold emplaceBy
    by_cases hlt : key y < key x
    · have ih := mem_emplaceBy_iff (z := z) fun w hw => hne w (List.mem_cons_of_mem y hw)
      rw [if_pos hlt]
      simp only [List.mem_cons, ih]
      tauto
    · rw [if_neg hlt, if_neg hy]
      simp

theorem pairwise_emplaceBy (x : β) : ∀ {l : List β}, l.Pairwise (fun a b => key a < key b) →
    (emplaceBy key x l).Pairwise (fun a b => key a < key b)
  | [], _ => List.pairwise_singleton _ _
  | y :: ys, hs => by
    obtain ⟨hy, hys⟩ := List.pairwise_cons.mp hs
    unfold emplaceBy
    split
    · next hlt =>
      refine List.pairwise_cons.mpr ⟨fun z hz => ?_, pairwise_emplaceBy x hys⟩
      rcases mem_emplaceBy hz with rfl | hz
      · exact hlt
      · exact hy z hz
    · split
      · exact hs
      · next hge hne =>
        -- `x` goes in front of `y`, whose key is above its own
        have hlt : key x < key y := lt_of_le_of_ne (not_lt.mp hge) (Ne.symm hne)
        refine List.pairwise_cons.mpr ⟨fun z hz => ?_, hs⟩
        rcases List.mem_cons.mp hz with rfl | hz
        · exact hlt
        · exact lt_trans hlt (hy z hz)

end Emplace

end SortedSearch
