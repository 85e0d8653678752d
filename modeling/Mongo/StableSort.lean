import Mathlib.Data.List.Forall2
import Mathlib.Data.List.Perm.Subperm

/-! Stable sorting by a total preorder given as a `Bool`-valued `le`, the form in which the
core `List.mergeSort` takes it. The output of a stable sort is determined by its input: it is
the one sorted list that keeps, for every class of equivalent elements, the order in which the
input lists that class (`eq_mergeSort_iff`). The facts an external sort rests on follow from
that characterisation. Sorting blocks and then the concatenation of the sorted blocks sorts
the whole input. The first minimal element of a list heads its sort, so a merge that keeps
taking the least head, ties going to the earlier run, is the stable sort of its runs. The last
section counts the elements at or below a bound, which compares the first `k` elements of two
sorts up to equivalence. -/

namespace StableSort

variable {α : Type*}

/-- `le` is a total preorder, in the form `List.pairwise_mergeSort` asks for. -/
structure IsTotalPreorder (le : α → α → Bool) : Prop where
  trans : ∀ a b c, le a b → le b c → le a c
  total : ∀ a b, le a b || le b a

/-- `a` and `b` lie in one class of `le`. -/
def equiv (le : α → α → Bool) (a b : α) : Bool := le a b && le b a

/-- `l'` lists every class of `le` in the order in which `l` lists it. -/
def StableOf (le : α → α → Bool) (l' l : List α) : Prop :=
  ∀ a, l'.filter (equiv le a) = l.filter (equiv le a)

theorem equiv_symm {le : α → α → Bool} {a b : α} (hab : equiv le a b) : equiv le b a := by
  simp only [equiv, Bool.and_eq_true] at *
  exact ⟨hab.2, hab.1⟩

section Preorder

variable {le : α → α → Bool} (hle : IsTotalPreorder le)
include hle

theorem IsTotalPreorder.refl (a : α) : le a a := by
  simpa using hle.total a a

theorem IsTotalPreorder.of_not {a b : α} (h : le a b = false) : le b a := by
  have := hle.total a b
  simp_all

/-- What lies above an element strictly above `x` is strictly above `x`. -/
theorem IsTotalPreorder.not_le_of_le {h a x : α} (hha : le h a) (hhx : le h x = false) :
    le a x = false := by
  cases hax : le a x
  · rfl
  · exact absurd (hle.trans h a x hha hax) (by simp [hhx])

theorem IsTotalPreorder.equiv_trans {a b c : α} (hab : equiv le a b) (hbc : equiv le b c) :
    equiv le a c := by
  simp only [equiv, Bool.and_eq_true] at *
  exact ⟨hle.trans a b c hab.1 hbc.1, hle.trans c b a hbc.2 hab.2⟩

end Preorder

/-! ## Stable permutations -/

section Stable

variable {le : α → α → Bool}

theorem StableOf.refl (l : List α) : StableOf le l l := fun _ => rfl

theorem StableOf.symm {l' l : List α} (h : StableOf le l' l) : StableOf le l l' :=
  fun a => (h a).symm

theorem StableOf.trans {l'' l' l : List α} (h₁ : StableOf le l'' l') (h₂ : StableOf le l' l) :
    StableOf le l'' l :=
  fun a => (h₁ a).trans (h₂ a)

theorem StableOf.append {A' A B' B : List α} (hA : StableOf le A' A) (hB : StableOf le B' B) :
    StableOf le (A' ++ B') (A ++ B) := by
  intro a
  rw [List.filter_append, List.filter_append, hA a, hB a]

theorem stableOf_flatten_map (f : List α → List α) :
    ∀ (Ls : List (List α)), (∀ l ∈ Ls, StableOf le (f l) l) →
      StableOf le (Ls.map f).flatten Ls.flatten
  | [], _ => StableOf.refl _
  | l :: Ls, h => by
    rw [List.map_cons, List.flatten_cons, List.flatten_cons]
    exact (h l List.mem_cons_self).append
      (stableOf_flatten_map f Ls fun l' hl' => h l' (List.mem_cons_of_mem l hl'))

/-! ## Runs given by their index -/

/-- The runs `0, …, n-1` read one after another. -/
def flattenRuns (runs : Nat → List α) (n : Nat) : List α := ((List.range n).map runs).flatten

theorem range_eq_split {j n : Nat} (hj : j < n) :
    List.range n = List.range j ++ j :: List.range' (j + 1) (n - (j + 1)) := by
  have hn : n = j + (n - (j + 1) + 1) := by omega
  conv_lhs => rw [hn]
  rw [List.range_eq_range', List.range_eq_range', ← List.range'_append, List.range'_succ]
  simp

theorem mem_flattenRuns {runs : Nat → List α} {n : Nat} {a : α} :
    a ∈ flattenRuns runs n ↔ ∃ i < n, a ∈ runs i := by
  simp [flattenRuns]

variable (hle : IsTotalPreorder le)
include hle

/-- A stable permutation is a permutation: every element is counted in its own class. -/
theorem StableOf.perm {l' l : List α} (h : StableOf le l' l) : l'.Perm l := by
  classical
  rw [List.perm_iff_count]
  intro b
  have hb : equiv le b b := by simp [equiv, hle.refl b]
  rw [← List.count_filter hb, h b, List.count_filter hb]

/-- The elements of one class are sorted in any order. -/
theorem pairwise_filter_equiv (a : α) (l : List α) : (l.filter (equiv le a)).Pairwise (le · ·) := by
  refine List.pairwise_of_forall_mem_list fun x hx y hy => ?_
  have h := hle.equiv_trans (equiv_symm (List.mem_filter.mp hx).2) (List.mem_filter.mp hy).2
  simp only [equiv, Bool.and_eq_true] at h
  exact h.1

/-- `List.mergeSort` is stable. -/
theorem stableOf_mergeSort (l : List α) : StableOf le (l.mergeSort le) l := by
  intro a
  have hsub : List.Sublist (l.filter (equiv le a)) (l.mergeSort le) :=
    List.sublist_mergeSort hle.trans hle.total (pairwise_filter_equiv hle a l)
      (List.filter_sublist)
  have hsub' : List.Sublist (l.filter (equiv le a)) ((l.mergeSort le).filter (equiv le a)) := by
    simpa using hsub.filter (equiv le a)
  have hlen : ((l.mergeSort le).filter (equiv le a)).length = (l.filter (equiv le a)).length :=
    ((List.mergeSort_perm l le).filter _).length_eq
  exact (hsub'.eq_of_length hlen.symm).symm

/-- Two sorted lists that list every class in the same order are equal. -/
theorem eq_of_stableOf : ∀ {l₁ l₂ : List α}, l₁.Pairwise (le · ·) → l₂.Pairwise (le · ·) →
    StableOf le l₁ l₂ → l₁ = l₂
  | [], l₂, _, _, hs => (List.Perm.nil_eq (hs.perm hle)).symm ▸ rfl
  | x :: l₁, [], _, _, hs => absurd (hs.perm hle).length_eq (by simp)
  | x :: l₁, y :: l₂, h₁, h₂, hs => by
    have hp := hs.perm hle
    -- the two heads are below everything, so each is below the other
    have hxy : le x y := by
      rcases List.mem_cons.mp (hp.symm.subset List.mem_cons_self) with h | hy
      · exact h ▸ hle.refl x
      · exact List.rel_of_pairwise_cons h₁ hy
    have hyx : le y x := by
      rcases List.mem_cons.mp (hp.subset List.mem_cons_self) with h | hx
      · exact h ▸ hle.refl y
      · exact List.rel_of_pairwise_cons h₂ hx
    have hxx : equiv le x x := by simp [equiv, hle.refl x]
    have hexy : equiv le x y := by simp [equiv, hxy, hyx]
    -- so both are the first of their class
    have hhead := hs x
    rw [List.filter_cons_of_pos hxx, List.filter_cons_of_pos hexy, List.cons.injEq] at hhead
    obtain ⟨rfl, -⟩ := hhead
    have htail : StableOf le l₁ l₂ := by
      intro a
      have ha := hs a
      by_cases hax : equiv le a x
      · rw [List.filter_cons_of_pos hax, List.filter_cons_of_pos hax, List.cons.injEq] at ha
        exact ha.2
      · rw [List.filter_cons_of_neg hax, List.filter_cons_of_neg hax] at ha
        exact ha
    rw [eq_of_stableOf h₁.of_cons h₂.of_cons htail]

/-- The stable sort of `l` is the one sorted list that lists every class as `l` does. -/
theorem eq_mergeSort_iff {l' l : List α} :
    l' = l.mergeSort le ↔ l'.Pairwise (le · ·) ∧ StableOf le l' l := by
  constructor
  · rintro rfl
    exact ⟨List.pairwise_mergeSort hle.trans hle.total l, stableOf_mergeSort hle l⟩
  · rintro ⟨hs, hst⟩
    exact eq_of_stableOf hle hs (List.pairwise_mergeSort hle.trans hle.total l)
      (hst.trans (stableOf_mergeSort hle l).symm)

/-- Stable sorting sees only the order of each class. -/
theorem mergeSort_eq_of_stableOf {l' l : List α} (h : StableOf le l' l) :
    l'.mergeSort le = l.mergeSort le :=
  (eq_mergeSort_iff hle).mpr
    ⟨List.pairwise_mergeSort hle.trans hle.total l', (stableOf_mergeSort hle l').trans h⟩

/-- Sorting blocks first does not change the sort of their concatenation. -/
theorem mergeSort_flatten_map_mergeSort (Ls : List (List α)) :
    (Ls.map (·.mergeSort le)).flatten.mergeSort le = Ls.flatten.mergeSort le :=
  mergeSort_eq_of_stableOf hle
    (stableOf_flatten_map _ Ls fun l _ => stableOf_mergeSort hle l)

/-- The first minimal element heads the stable sort: it is below everything after it and
strictly below everything before it. -/
theorem mergeSort_append_cons {A B : List α} {x : α} (hA : ∀ a ∈ A, le a x = false)
    (hB : ∀ b ∈ B, le x b) : (A ++ x :: B).mergeSort le = x :: (A ++ B).mergeSort le := by
  symm
  rw [eq_mergeSort_iff hle]
  constructor
  · refine List.pairwise_cons.mpr ⟨fun y hy => ?_, List.pairwise_mergeSort hle.trans hle.total _⟩
    rcases List.mem_append.mp ((List.mergeSort_perm _ le).subset hy) with hy | hy
    · exact hle.of_not (hA y hy)
    · exact hB y hy
  · intro c
    have hst := stableOf_mergeSort hle (A ++ B) c
    rw [List.filter_append] at hst
    rw [List.filter_append, List.filter_cons]
    by_cases hcx : equiv le c x
    · -- no element of `A` is in the class of `x`, which lies strictly below them
      have hAc : A.filter (equiv le c) = [] := by
        rw [List.filter_eq_nil_iff]
        intro a ha hca
        have hxa := hle.equiv_trans (equiv_symm hcx) hca
        simp [equiv, hA a ha] at hxa
      rw [List.filter_cons_of_pos hcx, hst, hAc, if_pos hcx]
      rfl
    · rw [List.filter_cons_of_neg hcx, hst, if_neg hcx]

/-- Taking the head of run `j` when it is the first least head: the sort of the runs is that
head followed by the sort of what is left. -/
theorem mergeSort_flattenRuns_update {runs : Nat → List α} {n j : Nat} {x : α} {r : List α}
    (hj : j < n) (hrun : runs j = x :: r) (hsorted : ∀ b ∈ r, le x b)
    (hbefore : ∀ i < j, ∀ a ∈ runs i, le a x = false)
    (hafter : ∀ i, j < i → i < n → ∀ b ∈ runs i, le x b) :
    (flattenRuns runs n).mergeSort le =
      x :: (flattenRuns (Function.update runs j r) n).mergeSort le := by
  -- the update touches run `j` only
  have hA : (List.range j).map (Function.update runs j r) = (List.range j).map runs := by
    refine List.map_congr_left fun i hi => Function.update_of_ne ?_ _ _
    have := List.mem_range.mp hi
    omega
  have hC : (List.range' (j + 1) (n - (j + 1))).map (Function.update runs j r) =
      (List.range' (j + 1) (n - (j + 1))).map runs := by
    refine List.map_congr_left fun i hi => Function.update_of_ne ?_ _ _
    have := (List.mem_range'_1.mp hi).1
    omega
  simp only [flattenRuns, range_eq_split hj, List.map_append, List.map_cons, List.flatten_append,
    List.flatten_cons, hA, hC, Function.update_self, hrun, List.cons_append]
  rw [mergeSort_append_cons hle]
  · intro a ha
    simp only [List.mem_flatten, List.mem_map, List.mem_range] at ha
    obtain ⟨_, ⟨i, hi, rfl⟩, ha⟩ := ha
    exact hbefore i hi a ha
  · intro b hb
    rcases List.mem_append.mp hb with hb | hb
    · exact hsorted b hb
    · simp only [List.mem_flatten, List.mem_map, List.mem_range'_1] at hb
      obtain ⟨_, ⟨i, hi, rfl⟩, hb⟩ := hb
      exact hafter i (by omega) (by omega) b hb

/-! ## The least element -/

/-- Every nonempty list has a first minimal element. -/
theorem exists_first_min : ∀ {l : List α}, l ≠ [] →
    ∃ A x B, l = A ++ x :: B ∧ (∀ a ∈ A, le a x = false) ∧ ∀ b ∈ B, le x b
  | [], h => absurd rfl h
  | [y], _ => ⟨[], y, [], rfl, by simp, by simp⟩
  | y :: z :: l, _ => by
    obtain ⟨A, x, B, hl, hA, hB⟩ := exists_first_min (l := z :: l) (List.cons_ne_nil z l)
    cases hyx : le y x
    · -- the least element of the rest is strictly below `y`
      exact ⟨y :: A, x, B, by rw [hl, List.cons_append],
        by simpa only [List.mem_cons, forall_eq_or_imp, hyx, true_and] using hA, hB⟩
    · -- `y` is below the least element of the rest
      refine ⟨[], y, z :: l, rfl, by simp, fun b hb => ?_⟩
      rw [hl] at hb
      rcases List.mem_append.mp hb with hb | hb
      · exact hle.trans y x b hyx (hle.of_not (hA b hb))
      · rcases List.mem_cons.mp hb with h | hb
        · exact h ▸ hyx
        · exact hle.trans y x b hyx (hB b hb)

/-- The first minimal element is below every element. -/
theorem le_of_first_min {A B : List α} {x : α} (hA : ∀ a ∈ A, le a x = false)
    (hB : ∀ b ∈ B, le x b) : ∀ b ∈ A ++ x :: B, le x b := by
  intro b hb
  rcases List.mem_append.mp hb with hb | hb
  · exact hle.of_not (hA b hb)
  · rcases List.mem_cons.mp hb with h | hb
    · exact h ▸ hle.refl x
    · exact hB b hb

/-- The head of a sort is its input's first minimal element. -/
theorem head?_mergeSort {l : List α} (hl : l ≠ []) :
    ∃ A x B, l = A ++ x :: B ∧ (∀ a ∈ A, le a x = false) ∧ (∀ b ∈ B, le x b) ∧
      (l.mergeSort le).head? = some x := by
  obtain ⟨A, x, B, rfl, hA, hB⟩ := exists_first_min hle hl
  exact ⟨A, x, B, rfl, hA, hB, by rw [mergeSort_append_cons hle hA hB]; rfl⟩

/-- Appending an element not strictly below the head of a sort keeps that head. -/
theorem head?_mergeSort_append_of_le {l : List α} {b c : α}
    (hb : (l.mergeSort le).head? = some b) (hbc : le b c) :
    ((l ++ [c]).mergeSort le).head? = some b := by
  have hl : l ≠ [] := by rintro rfl; simp at hb
  obtain ⟨A, x, B, rfl, hA, hB, hx⟩ := head?_mergeSort hle hl
  obtain rfl : x = b := Option.some.inj (hx.symm.trans hb)
  have hB' : ∀ y ∈ B ++ [c], le x y := by
    intro y hy
    rcases List.mem_append.mp hy with hy | hy
    · exact hB y hy
    · exact (List.mem_singleton.mp hy) ▸ hbc
  rw [List.append_assoc, List.cons_append, mergeSort_append_cons hle hA hB']
  rfl

/-- Appending an element strictly below the head of a sort makes it the head. -/
theorem head?_mergeSort_append_of_not_le {l : List α} {b c : α}
    (hb : (l.mergeSort le).head? = some b) (hbc : le b c = false) :
    ((l ++ [c]).mergeSort le).head? = some c := by
  have hl : l ≠ [] := by rintro rfl; simp at hb
  obtain ⟨A, x, B, rfl, hA, hB, hx⟩ := head?_mergeSort hle hl
  obtain rfl : x = b := Option.some.inj (hx.symm.trans hb)
  have hlc : ∀ a ∈ A ++ x :: B, le a c = false := fun a ha =>
    hle.not_le_of_le (le_of_first_min hle hA hB a ha) hbc
  have h := mergeSort_append_cons hle hlc (B := []) (by simp)
  rw [List.append_nil] at h
  rw [h]
  rfl

/-- The last element of a sorted list is at or above all of it. -/
theorem le_getLast_of_pairwise {l : List α} (hs : l.Pairwise (le · ·)) (hne : l ≠ []) :
    ∀ y ∈ l, le y (l.getLast hne) := by
  intro y hy
  have hsplit := List.dropLast_append_getLast hne
  rw [← hsplit] at hs hy
  rcases List.mem_append.mp hy with hy | hy
  · exact (List.pairwise_append.mp hs).2.2 y hy _ (List.mem_singleton_self _)
  · exact (List.mem_singleton.mp hy) ▸ hle.refl _

/-! ## Counting the elements at or below a bound -/

/-- The number of elements of `l` at or below `y`. -/
def countLE (le : α → α → Bool) (y : α) (l : List α) : Nat := l.countP (le · y)

omit hle in
@[simp] theorem countLE_append (y : α) (l₁ l₂ : List α) :
    countLE le y (l₁ ++ l₂) = countLE le y l₁ + countLE le y l₂ :=
  List.countP_append

omit hle in
theorem countLE_perm {l₁ l₂ : List α} (h : l₁.Perm l₂) (y : α) :
    countLE le y l₁ = countLE le y l₂ :=
  h.countP_eq _

theorem countLE_le_of_le {y z : α} (l : List α) (h : le y z) : countLE le y l ≤ countLE le z l :=
  List.countP_mono_left fun x _ hx => hle.trans x y z hx h

/-- In a sorted list the elements at or below a bound come first. -/
theorem countLE_take (y : α) : ∀ {l : List α}, l.Pairwise (le · ·) → ∀ k,
    countLE le y (l.take k) = min k (countLE le y l)
  | [], _, k => by simp [countLE]
  | a :: l, hs, 0 => by simp [countLE]
  | a :: l, hs, k + 1 => by
    have ih := countLE_take y hs.of_cons k
    simp only [countLE, List.take_succ_cons, List.countP_cons] at ih ⊢
    cases hay : le a y
    · -- everything after `a` is above `a`, so above `y`
      have hzero : l.countP (le · y) = 0 := List.countP_eq_zero.mpr fun b hb =>
        by simpa using hle.not_le_of_le (List.rel_of_pairwise_cons hs hb) hay
      simp only [hzero, Nat.min_zero] at ih
      simp [ih, hzero]
    · simp only [ih, if_true]
      omega

/-- Two sorted lists of one length that have as many elements at or below every bound agree
position by position up to equivalence. -/
theorem forall₂_equiv_of_countLE : ∀ {A B : List α}, A.Pairwise (le · ·) → B.Pairwise (le · ·) →
    A.length = B.length → (∀ y, countLE le y A = countLE le y B) →
    List.Forall₂ (fun a b => equiv le a b) A B
  | [], [], _, _, _, _ => .nil
  | [], _ :: _, _, _, hlen, _ => absurd hlen (by simp)
  | _ :: _, [], _, _, hlen, _ => absurd hlen (by simp)
  | a :: A, b :: B, hA, hB, hlen, hc => by
    -- the head of each list is below some element of the other that is below its own head
    have hlow {a b : α} {A B : List α} (hB : (b :: B).Pairwise (le · ·))
        (hc : countLE le a (a :: A) = countLE le a (b :: B)) : le b a := by
      have hpos : 0 < countLE le a (b :: B) := by
        rw [← hc]
        exact List.countP_pos_iff.mpr ⟨a, List.mem_cons_self, hle.refl a⟩
      obtain ⟨e, he, hea⟩ := List.countP_pos_iff.mp hpos
      rcases List.mem_cons.mp he with h | he
      · exact h ▸ hea
      · exact hle.trans b e a (List.rel_of_pairwise_cons hB he) hea
    have hab : equiv le a b := by
      simp only [equiv, Bool.and_eq_true]
      exact ⟨hlow hA (hc b).symm, hlow hB (hc a)⟩
    refine .cons hab (forall₂_equiv_of_countLE hA.of_cons hB.of_cons (by simpa using hlen) ?_)
    intro y
    have hy := hc y
    -- `a` and `b` are together at or below `y`, or together above it
    have hiff : le a y = le b y := by
      simp only [equiv, Bool.and_eq_true] at hab
      cases hay : le a y <;> cases hby : le b y
      · rfl
      · exact absurd (hle.trans a b y hab.1 hby) (by simp [hay])
      · exact absurd (hle.trans b a y hab.2 hay) (by simp [hby])
      · rfl
    simp only [countLE, List.countP_cons, hiff] at hy ⊢
    omega

/-- The first `k` elements of the sorts of `Kept` and of `I` agree up to equivalence when `I` is
`Kept` together with elements `D` each of which has at least `k` elements of `Kept` at or
below it. -/
theorem forall₂_take_of_dropped {S T Kept I D : List α} (k : Nat)
    (hS : S.Pairwise (le · ·)) (hSp : S.Perm Kept) (hT : T.Pairwise (le · ·)) (hTp : T.Perm I)
    (hI : I.Perm (Kept ++ D)) (hD : ∀ d ∈ D, k ≤ countLE le d Kept) :
    List.Forall₂ (fun a b => equiv le a b) (S.take k) (T.take k) := by
  have hcount (y : α) : countLE le y T = countLE le y Kept + countLE le y D := by
    rw [countLE_perm hTp, countLE_perm hI, countLE_append]
  -- below a dropped element there are `k` kept ones
  have hbound (y : α) (hy : 0 < countLE le y D) : k ≤ countLE le y Kept := by
    obtain ⟨d, hd, hdy⟩ := List.countP_pos_iff.mp hy
    exact Nat.le_trans (hD d hd) (countLE_le_of_le hle Kept hdy)
  refine forall₂_equiv_of_countLE hle (hS.sublist (List.take_sublist k S))
    (hT.sublist (List.take_sublist k T)) ?_ fun y => ?_
  · rw [List.length_take, List.length_take, hSp.length_eq, hTp.length_eq, hI.length_eq,
      List.length_append]
    rcases D with _ | ⟨d, D⟩
    · simp
    · have hk := Nat.le_trans (hD d List.mem_cons_self) List.countP_le_length
      simp only [List.length_cons]
      omega
  · rw [countLE_take hle y hS, countLE_take hle y hT, hcount, countLE, hSp.countP_eq]
    by_cases hy : countLE le y D = 0
    · rw [hy]
      rfl
    · have := hbound y (Nat.pos_of_ne_zero hy)
      simp only [countLE] at this hy ⊢
      omega

/-! ## Dropping elements that have enough kept ones below them -/

/-- `I` is `Kept` together with elements each of which has at least `k` elements of `Kept` at or
below it. -/
def Dropped (le : α → α → Bool) (k : Nat) (I Kept : List α) : Prop :=
  ∃ D, I.Perm (Kept ++ D) ∧ ∀ d ∈ D, k ≤ countLE le d Kept

omit hle in
theorem dropped_nil (k : Nat) : Dropped le k [] [] := ⟨[], by simp, by simp⟩

omit hle in
/-- What is kept is drawn from `I`. -/
theorem Dropped.subperm {k : Nat} {I K : List α} (h : Dropped le k I K) : K.Subperm I := by
  obtain ⟨D, hI, -⟩ := h
  exact (List.sublist_append_left K D).subperm.trans hI.symm.subperm

omit hle in
theorem Dropped.perm {k : Nat} {I K K' : List α} (h : Dropped le k I K) (hK : K.Perm K') :
    Dropped le k I K' := by
  obtain ⟨D, hI, hD⟩ := h
  exact ⟨D, hI.trans (hK.append_right D), fun d hd => countLE_perm hK d ▸ hD d hd⟩

omit hle in
/-- An element with `k` kept ones at or below it can be dropped. -/
theorem Dropped.drop {k : Nat} {I K : List α} {x : α} (h : Dropped le k I K)
    (hx : k ≤ countLE le x K) : Dropped le k (I ++ [x]) K := by
  obtain ⟨D, hI, hD⟩ := h
  refine ⟨D ++ [x], by simpa using hI.append_right [x], fun d hd => ?_⟩
  rcases List.mem_append.mp hd with hd | hd
  · exact hD d hd
  · exact (List.mem_singleton.mp hd) ▸ hx

omit hle in
/-- Keeping one more element only adds to the counts. -/
theorem Dropped.keep {k : Nat} {I K : List α} (h : Dropped le k I K) (x : α) :
    Dropped le k (I ++ [x]) (K ++ [x]) := by
  obtain ⟨D, hI, hD⟩ := h
  refine ⟨D, ?_, fun d hd => Nat.le_trans (hD d hd) (by simp)⟩
  calc List.Perm (I ++ [x]) (K ++ D ++ [x]) := hI.append_right [x]
    List.Perm _ (K ++ [x] ++ D) := by
      rw [List.append_assoc, List.append_assoc]
      exact List.perm_append_comm.append_left K

/-- Replacing a kept element `f` by one at or below it leaves every count at least as large. -/
theorem countLE_cons_le_cons {c f : α} (hcf : le c f) (d : α) (R : List α) :
    countLE le d (f :: R) ≤ countLE le d (c :: R) := by
  simp only [countLE, List.countP_cons]
  cases hfd : le f d
  · simp
  · simp [hle.trans c f d hcf hfd]

/-- The kept element `f` is dropped in favour of `c`, at or below it, once `f` has `k` kept ones
at or below it. -/
theorem Dropped.replace {k : Nat} {I R : List α} {c f : α} (h : Dropped le k I (f :: R))
    (hcf : le c f) (hf : k ≤ countLE le f (c :: R)) : Dropped le k (I ++ [c]) (c :: R) := by
  obtain ⟨D, hI, hD⟩ := h
  refine ⟨f :: D, ?_, fun d hd => ?_⟩
  · calc List.Perm (I ++ [c]) (f :: R ++ D ++ [c]) := hI.append_right [c]
      List.Perm _ (c :: f :: (R ++ D)) := List.perm_append_singleton _ _
      List.Perm _ (c :: (R ++ f :: D)) := List.perm_middle.symm.cons c
  · rcases List.mem_cons.mp hd with rfl | hd
    · exact hf
    · exact Nat.le_trans (hD d hd) (countLE_cons_le_cons hle hcf d R)

end Stable

end StableSort
