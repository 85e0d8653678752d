import Mongo.Query.IndexBoundsChecker
import Mongo.SortedSearch

/-! The comparisons of `IndexBoundsChecker` in the direction of the scan.

Each field of an index scan is walked in a direction `e`: `1` when the scan goes up the field's
values, `-1` when it goes down. `intervalCmp` places a value against an interval by the signs of
`woCompare`, read in that direction; it is the interval's meaning under the comparison turned by
`e` (`dirCmp`), and `isValidFor(e)` is `isValidFor(1)` under it, so the facts about ascending
interval lists serve both directions.

On such a list the intervals a value is ahead of come first, which is what `std::lower_bound` in
`findIntervalForField` needs, and the interval found there says where the value is: in it, or
before it and in no interval at all, or past every interval. -/

namespace Mongo.Query

variable {β : Type}

/-- `cmp` in the direction `e` of a field in the scan: itself for `1`, reversed for `-1`. -/
def dirCmp (cmp : β → β → Int) (e : Int) (x y : β) : Int := e * cmp x y

theorem dirCmp_one (cmp : β → β → Int) : dirCmp cmp 1 = cmp := by
  funext x y
  simp [dirCmp]

end Mongo.Query

namespace Mongo.Sorting.TotalPreorder

open Mongo.Query

variable {β : Type} {cmp : β → β → Int} (hcmp : TotalPreorder cmp) {e : Int}
include hcmp

/-- Reversing a total preorder gives one. -/
theorem dirCmp (he : e = 1 ∨ e = -1) : TotalPreorder (dirCmp cmp e) := by
  rcases he with rfl | rfl
  · rw [dirCmp_one]
    exact hcmp
  · constructor
    · intro a b
      have := hcmp.neg_iff b a
      simp only [Mongo.Query.dirCmp]
      omega
    · intro a b c hab hbc
      simp only [Mongo.Query.dirCmp, neg_mul, one_mul, Left.neg_nonpos_iff] at hab hbc ⊢
      have hba : cmp b a ≤ 0 := (hcmp.not_lt a b).mp (by omega)
      have hcb : cmp c b ≤ 0 := (hcmp.not_lt b c).mp (by omega)
      have hca := hcmp.le_trans c b a hcb hba
      have := (hcmp.not_lt a c).mpr hca
      omega

end Mongo.Sorting.TotalPreorder

namespace Mongo.Query

open Mongo.Sorting (TotalPreorder)
open Mongo.Query.Interval OrderedIntervalList IndexBoundsChecker

variable {β : Type} {cmp : β → β → Int}

/-! ## Ascending lists of intervals -/

section Ascending

variable {c : β → β → Int}

theorem Interval.AscendingOrPoint.start_le_end {I : Interval β} (hI : AscendingOrPoint c I) :
    c I.start I.end_ ≤ 0 := by
  rcases hI with hlt | ⟨heq, -⟩
  · exact Int.le_of_lt hlt
  · exact Int.le_of_eq heq

theorem OrderedIntervalList.Ascending.tail {I : Interval β} {l : List (Interval β)} (hl : Ascending c (I :: l)) :
    Ascending c l :=
  ⟨fun i hi => hl.1 i (List.mem_cons_of_mem I hi), hl.2.tail⟩

theorem OrderedIntervalList.Ascending.append_right {pre l : List (Interval β)} (hl : Ascending c (pre ++ l)) :
    Ascending c l :=
  ⟨fun i hi => hl.1 i (List.mem_append_right pre hi), hl.2.right_of_append⟩

variable (hc : TotalPreorder c)
include hc

/-- A value at or past a lower bound keeps it from there on. -/
theorem Interval.AtOrAbove.trans_le {s x y : β} {si : Bool} (h : AtOrAbove c s si x) (hxy : c x y ≤ 0) :
    AtOrAbove c s si y := by
  cases si
  · exact hc.lt_of_lt_of_le h hxy
  · exact hc.le_trans _ _ _ h hxy

/-- A value past an upper bound stays past it from there on. -/
theorem not_atOrBelow_of_le {b x y : β} {bi : Bool} (h : ¬ AtOrBelow c b bi x) (hxy : c x y ≤ 0) :
    ¬ AtOrBelow c b bi y := by
  rw [not_atOrBelow hc] at h ⊢
  exact AtOrAbove.trans_le hc h hxy

/-- Below the start of an interval of an ascending list is below the start of every later one. -/
theorem OrderedIntervalList.Ascending.not_atOrAbove_later {J : Interval β} {post : List (Interval β)}
    (hl : Ascending c (J :: post)) {x : β} (hx : ¬ AtOrAbove c J.start J.startInclusive x) :
    ∀ K ∈ post, ¬ AtOrAbove c K.start K.startInclusive x := by
  have hxe : c x J.end_ < 0 :=
    lt_end_of_atOrBelow_start hc (hl.1 J List.mem_cons_self) ((not_atOrAbove hc).mp hx)
  have hstart : ∀ K ∈ post, c J.end_ K.start ≤ 0 :=
    hl.tail.le_start hc fun K hK => hl.2.rel_head? hK
  intro K hK hxK
  have hlt : 0 < c K.start x := (hc.neg_iff x K.start).mp (hc.lt_of_lt_of_le hxe (hstart K hK))
  have hle := AtOrAbove.le hxK
  omega

/-- A value past the intervals before `J` and below the start of `J` is in no interval. -/
theorem OrderedIntervalList.Ascending.not_contains_of_behind {pre post : List (Interval β)} {J : Interval β}
    (hl : Ascending c (pre ++ J :: post)) {x : β}
    (hpre : ∀ I ∈ pre, ¬ AtOrBelow c I.end_ I.endInclusive x)
    (hJ : ¬ AtOrAbove c J.start J.startInclusive x) :
    ∀ I ∈ pre ++ J :: post, ¬ Contains c I x := by
  intro I hI hIx
  rcases List.mem_append.mp hI with hI | hI
  · exact hpre I hI hIx.2
  · rcases List.mem_cons.mp hI with rfl | hI
    · exact hJ hIx.1
    · exact hl.append_right.not_atOrAbove_later hc hJ I hI hIx.1

/-- A value below the start of the first interval of an ascending list is in none. -/
theorem OrderedIntervalList.Ascending.not_contains_of_below_first {l : List (Interval β)}
    (hl : Ascending c l) {I : Interval β} (hI : l[0]? = some I) {y : β}
    (hy : ¬ AtOrAbove c I.start I.startInclusive y) : ∀ K ∈ l, ¬ Contains c K y := by
  cases l with
  | nil => simp at hI
  | cons J post =>
    rw [List.getElem?_cons_zero, Option.some.injEq] at hI
    subst hI
    exact Ascending.not_contains_of_behind hc (show Ascending c ([] ++ J :: post) from hl)
      (by simp) hy

/-- Every interval of an ascending list ends at or before the end of the last. -/
theorem OrderedIntervalList.Ascending.end_le_getLast {l : List (Interval β)} (hl : Ascending c l) {J : Interval β}
    (hJ : l.getLast? = some J) : ∀ I ∈ l, c I.end_ J.end_ ≤ 0 := by
  induction l with
  | nil => simp at hJ
  | cons I rest ih =>
    cases rest with
    | nil =>
      rw [List.getLast?_singleton, Option.some.injEq] at hJ
      subst hJ
      intro I' hI'
      rw [List.mem_singleton.mp hI', hc.refl]
    | cons K rest =>
      rw [List.getLast?_cons_cons] at hJ
      have ih' := ih hl.tail hJ
      intro I' hI'
      rcases List.mem_cons.mp hI' with rfl | hI'
      · -- the end of `I'` is at or before the start of `K`, and `K` runs up to its end
        have h₁ : c I'.end_ K.start ≤ 0 := hl.2.rel_head? rfl
        have h₂ : c K.start K.end_ ≤ 0 := (hl.tail.1 K List.mem_cons_self).start_le_end
        exact hc.le_trans _ _ _ (hc.le_trans _ _ _ h₁ h₂) (ih' K List.mem_cons_self)
      · exact ih' I' hI'

/-- Past the end of an interval of an ascending list is past every interval before it. -/
theorem OrderedIntervalList.Ascending.ahead_of_ahead_later {l : List (Interval β)} (hl : Ascending c l) (x : β) :
    l.Pairwise fun I K => ¬ AtOrBelow c K.end_ K.endInclusive x →
      AtOrAbove c I.start I.startInclusive x ∧ ¬ AtOrBelow c I.end_ I.endInclusive x := by
  induction l with
  | nil => exact List.Pairwise.nil
  | cons I rest ih =>
    refine List.Pairwise.cons (fun K hK hxK => ?_) (ih hl.tail)
    have hIK : c I.end_ K.start ≤ 0 := hl.tail.le_start hc (fun K hK => hl.2.rel_head? hK) K hK
    have hK : AscendingOrPoint c K := hl.1 K (List.mem_cons_of_mem I hK)
    have hpast := (not_atOrBelow hc).mp hxK
    constructor
    · have hs : c I.start K.start ≤ 0 :=
        hc.le_trans _ _ _ (hl.1 I List.mem_cons_self).start_le_end hIK
      have h : AtOrAbove c I.start (!!I.startInclusive) x := atOrAbove_of_end hc hK hs hpast
      simpa using h
    · exact (not_atOrBelow hc).mpr (atOrAbove_of_end hc hK hIK hpast)

end Ascending

/-! ## `intervalCmp` -/

section Direction

variable (hcmp : TotalPreorder cmp) {e : Int} (he : e = 1 ∨ e = -1)
include hcmp he

/-- `sgn(cmp(x, y)) == e`: `y` is before `x` in the direction `e`. -/
theorem sign_eq_dir_iff (x y : β) : (cmp x y).sign = e ↔ dirCmp cmp e y x < 0 := by
  have := hcmp.neg_iff y x
  have := hcmp.neg_iff x y
  rcases he with rfl | rfl
  · rw [Int.sign_eq_one_iff_pos, dirCmp, one_mul]
    omega
  · rw [Int.sign_eq_neg_one_iff_neg, dirCmp]
    omega

omit hcmp in
/-- `sgn(cmp(x, y)) == -e`: `x` is before `y` in the direction `e`. -/
theorem sign_eq_neg_dir_iff (x y : β) : (cmp x y).sign = -e ↔ dirCmp cmp e x y < 0 := by
  rcases he with rfl | rfl
  · rw [Int.sign_eq_neg_one_iff_neg, dirCmp, one_mul]
  · rw [neg_neg, Int.sign_eq_one_iff_pos, dirCmp]
    omega

omit hcmp in
theorem sign_eq_zero_iff (x y : β) : (cmp x y).sign = 0 ↔ dirCmp cmp e x y = 0 := by
  rcases he with rfl | rfl <;> simp [dirCmp]

/-- The `startOK` of `intervalCmp`. -/
theorem startOK_iff (start x : β) (startInclusive : Bool) :
    ((cmp x start).sign == e || ((cmp x start).sign == 0 && startInclusive)) = true ↔
      AtOrAbove (dirCmp cmp e) start startInclusive x := by
  have h₀ : (cmp x start).sign = 0 ↔ dirCmp cmp e start x = 0 :=
    (sign_eq_zero_iff he x start).trans (by rw [(hcmp.dirCmp he).zero_iff])
  simp only [Bool.or_eq_true, beq_iff_eq, Bool.and_eq_true, sign_eq_dir_iff hcmp he, h₀,
    AtOrAbove]
  cases startInclusive
  · simp
  · simp only [and_true, if_true]
    omega

omit hcmp in
/-- The `endOK` of `intervalCmp`. -/
theorem endOK_iff (end_ x : β) (endInclusive : Bool) :
    ((cmp x end_).sign == -e || ((cmp x end_).sign == 0 && endInclusive)) = true ↔
      AtOrBelow (dirCmp cmp e) end_ endInclusive x := by
  simp only [Bool.or_eq_true, beq_iff_eq, Bool.and_eq_true, sign_eq_neg_dir_iff he,
    sign_eq_zero_iff he, AtOrBelow]
  cases endInclusive
  · simp
  · simp only [and_true, if_true]
    omega

/-- `intervalCmp` places `x` by the meaning of the interval in the direction `e`. -/
theorem intervalCmp_eq (I : Interval β) (x : β) :
    intervalCmp cmp I x e =
      if AtOrAbove (dirCmp cmp e) I.start I.startInclusive x then
        if AtOrBelow (dirCmp cmp e) I.end_ I.endInclusive x then .WITHIN else .AHEAD
      else .BEHIND := by
  have hs := startOK_iff hcmp he I.start x I.startInclusive
  have hend : _ ↔ AtOrBelow (dirCmp cmp e) I.end_ I.endInclusive x :=
    endOK_iff he I.end_ x I.endInclusive
  unfold intervalCmp
  by_cases h₁ : AtOrAbove (dirCmp cmp e) I.start I.startInclusive x
  · by_cases h₂ : AtOrBelow (dirCmp cmp e) I.end_ I.endInclusive x
    · simp [hs.mpr h₁, hend.mpr h₂, h₁, h₂]
    · simp [hs.mpr h₁, h₁, h₂, Bool.eq_false_iff.mpr (mt hend.mp h₂)]
  · simp [h₁, Bool.eq_false_iff.mpr (mt hs.mp h₁)]

theorem intervalCmp_eq_within_iff (I : Interval β) (x : β) :
    intervalCmp cmp I x e = .WITHIN ↔ Contains (dirCmp cmp e) I x := by
  rw [intervalCmp_eq hcmp he, Contains]
  split_ifs <;> simp_all

theorem intervalCmp_eq_behind_iff (I : Interval β) (x : β) :
    intervalCmp cmp I x e = .BEHIND ↔ ¬ AtOrAbove (dirCmp cmp e) I.start I.startInclusive x := by
  rw [intervalCmp_eq hcmp he]
  split_ifs <;> simp_all

theorem intervalCmp_eq_ahead_iff (I : Interval β) (x : β) :
    intervalCmp cmp I x e = .AHEAD ↔
      AtOrAbove (dirCmp cmp e) I.start I.startInclusive x ∧
        ¬ AtOrBelow (dirCmp cmp e) I.end_ I.endInclusive x := by
  rw [intervalCmp_eq hcmp he]
  split_ifs <;> simp_all

omit hcmp in
/-- `isValidFor(e)` is `isValidFor(1)` under the comparison turned to the direction `e`. -/
theorem isValidFor_eq_dir (oil : OrderedIntervalList β) :
    oil.isValidFor cmp e = oil.isValidFor (dirCmp cmp e) 1 := by
  -- the sign of `e * c` against `0` and `1` is that of `c` against `0` and `e`
  have hsign : ∀ c : Int, ((e * c).sign == 0) = (c.sign == 0) ∧ ((e * c).sign == 1) = (c.sign == e) := by
    intro c
    rcases he with rfl | rfl
    · simp
    · rcases Int.sign_trichotomy c with h | h | h <;> simp [Int.sign_neg, h]
  have hneighbours : ∀ l : List (Interval β),
      validNeighbours cmp e l = validNeighbours (dirCmp cmp e) 1 l := by
    intro l
    induction l with
    | nil => rfl
    | cons a l ih =>
      cases l with
      | nil => rfl
      | cons b l =>
        simp only [validNeighbours] at ih ⊢
        rw [ih, dirCmp, (hsign _).1, (hsign _).2]
  simp only [isValidFor, dirCmp, (hsign _).1, (hsign _).2, hneighbours]

/-- `isValidFor(e)` accepts exactly the lists that ascend in the direction `e`. -/
theorem isValidFor_iff_ascending (oil : OrderedIntervalList β) :
    oil.isValidFor cmp e = true ↔ Ascending (dirCmp cmp e) oil.intervals := by
  rw [isValidFor_eq_dir he, isValidFor_one_iff (hcmp.dirCmp he)]

/-! ## `findIntervalForField` -/

/-- On a list that ascends in the direction `e`, the intervals `x` is ahead of come first, as
`std::lower_bound` needs. -/
theorem prefixClosed_isKeyAheadOfInterval {l : List (Interval β)}
    (hl : Ascending (dirCmp cmp e) l) (x : β) :
    SortedSearch.PrefixClosed (fun I => isKeyAheadOfInterval cmp I (x, e)) l := by
  refine (hl.ahead_of_ahead_later (hcmp.dirCmp he) x).imp fun {I K} h hK => ?_
  simp only [isKeyAheadOfInterval, beq_iff_eq, intervalCmp_eq_ahead_iff hcmp he] at hK ⊢
  exact h hK.2

omit hcmp he in
/-- The search stops at an interval `x` is not ahead of. -/
theorem isKeyAheadOfInterval_of_dropWhile_eq_cons {x : β} {l : List (Interval β)}
    {J : Interval β} {post : List (Interval β)}
    (hd : (l.dropWhile fun I => isKeyAheadOfInterval cmp I (x, e)) = J :: post) :
    isKeyAheadOfInterval cmp J (x, e) = false := by
  have := List.head?_dropWhile_not (fun I => isKeyAheadOfInterval cmp I (x, e)) l
  rw [hd] at this
  exact this

omit hcmp he in
/-- Where `findIntervalForField` stops: past every interval when `x` is ahead of all, and
otherwise at the first one `x` is not ahead of, which it is behind or in. -/
theorem findIntervalForField_eq (x : β) (oil : OrderedIntervalList β) :
    findIntervalForField cmp x oil e =
      match oil.intervals.dropWhile fun I => isKeyAheadOfInterval cmp I (x, e) with
      | [] => .ok (.AHEAD, oil.intervals.length)
      | J :: _ => .ok (intervalCmp cmp J x e,
          (oil.intervals.takeWhile fun I => isKeyAheadOfInterval cmp I (x, e)).length) := by
  have hsplit := List.takeWhile_append_dropWhile (p := fun I => isKeyAheadOfInterval cmp I (x, e))
    (l := oil.intervals)
  have hat := SortedSearch.getElem?_length_takeWhile (p := fun I => isKeyAheadOfInterval cmp I (x, e))
    oil.intervals
  unfold findIntervalForField
  dsimp only
  rw [hat]
  cases hd : oil.intervals.dropWhile fun I => isKeyAheadOfInterval cmp I (x, e) with
  | nil =>
    rw [hd, List.append_nil] at hsplit
    rw [List.head?_nil, hsplit]
    rfl
  | cons J post =>
    have hJ := isKeyAheadOfInterval_of_dropWhile_eq_cons hd
    have hloc : (intervalCmp cmp J x e == .BEHIND || intervalCmp cmp J x e == .WITHIN) = true := by
      simp only [isKeyAheadOfInterval, beq_eq_false_iff_ne] at hJ
      cases h : intervalCmp cmp J x e <;> simp_all
    simp [invariant, hloc]

omit hcmp he in
variable (cmp e) in
/-- `findIntervalForField` never fails its `invariant`. -/
theorem findIntervalForField_ok (x : β) (oil : OrderedIntervalList β) :
    ∃ location i, findIntervalForField cmp x oil e = .ok (location, i) := by
  rw [findIntervalForField_eq]
  split
  · exact ⟨_, _, rfl⟩
  · exact ⟨_, _, rfl⟩

section Found

variable {x : β} {oil : OrderedIntervalList β} {location : Location} {i : Nat}
  (hfound : findIntervalForField cmp x oil e = .ok (location, i))
include hfound

omit hcmp he in
/-- What `findIntervalForField` reports: the intervals before `i` are ones `x` is ahead of, and
at `i` there is an interval `x` is in or behind, or none when `x` is ahead of all. -/
theorem findIntervalForField_spec :
    ∃ pre post, oil.intervals = pre ++ post ∧ i = pre.length ∧
      (∀ I ∈ pre, intervalCmp cmp I x e = .AHEAD) ∧
      match post with
      | [] => location = .AHEAD
      | J :: _ => location = intervalCmp cmp J x e ∧ location ≠ .AHEAD := by
  have hsplit := List.takeWhile_append_dropWhile (p := fun I => isKeyAheadOfInterval cmp I (x, e))
    (l := oil.intervals)
  have hpre : ∀ I ∈ oil.intervals.takeWhile (fun I => isKeyAheadOfInterval cmp I (x, e)),
      intervalCmp cmp I x e = .AHEAD := fun I hI => by
    simpa [isKeyAheadOfInterval] using List.mem_takeWhile_imp hI
  rw [findIntervalForField_eq] at hfound
  refine ⟨_, _, hsplit.symm, ?_, hpre, ?_⟩
  · split at hfound
    · next hd =>
      rw [hd, List.append_nil] at hsplit
      cases hfound
      rw [hsplit]
    · cases hfound
      rfl
  · split at hfound
    · cases hfound
      rfl
    · next J post hd =>
      cases hfound
      refine ⟨rfl, fun hJ => ?_⟩
      have := isKeyAheadOfInterval_of_dropWhile_eq_cons hd
      simp [isKeyAheadOfInterval, hJ] at this

/-- `x` is in the interval found. -/
theorem findIntervalForField_within (h : location = .WITHIN) :
    ∃ J, oil.intervals[i]? = some J ∧ Contains (dirCmp cmp e) J x := by
  obtain ⟨pre, post, hl, rfl, -, hpost⟩ := findIntervalForField_spec hfound
  cases post with
  | nil => simp_all
  | cons J post =>
    refine ⟨J, by simp [hl], ?_⟩
    rw [← intervalCmp_eq_within_iff hcmp he, ← hpost.1, h]

/-- Ahead of every interval, `x` and every value from it on are in none. -/
theorem findIntervalForField_ahead (h : location = .AHEAD) :
    ∀ y, dirCmp cmp e x y ≤ 0 → ¬ oil.Denotes (dirCmp cmp e) y := by
  obtain ⟨pre, post, hl, rfl, hpre, hpost⟩ := findIntervalForField_spec hfound
  have hnil : post = [] := by
    cases post with
    | nil => rfl
    | cons J post => exact absurd h hpost.2
  subst hnil
  rw [List.append_nil] at hl
  rintro y hxy ⟨I, hI, hIy⟩
  rw [hl] at hI
  exact not_atOrBelow_of_le (hcmp.dirCmp he) ((intervalCmp_eq_ahead_iff hcmp he I x).mp
    (hpre I hI)).2 hxy hIy.2

variable (hasc : Ascending (dirCmp cmp e) oil.intervals)
include hasc

/-- Behind the interval found, `x` and every value from it up to the interval's start are in no
interval of the list. -/
theorem findIntervalForField_behind (h : location = .BEHIND) :
    ∃ J, oil.intervals[i]? = some J ∧ ¬ AtOrAbove (dirCmp cmp e) J.start J.startInclusive x ∧
      ∀ y, dirCmp cmp e x y ≤ 0 → ¬ AtOrAbove (dirCmp cmp e) J.start J.startInclusive y →
        ¬ oil.Denotes (dirCmp cmp e) y := by
  obtain ⟨pre, post, hl, rfl, hpre, hpost⟩ := findIntervalForField_spec hfound
  cases post with
  | nil => simp_all
  | cons J post =>
    have hJx := (intervalCmp_eq_behind_iff hcmp he J x).mp (hpost.1.symm.trans h)
    refine ⟨J, by simp [hl], hJx, fun y hxy hy => ?_⟩
    -- `y` is past the intervals `x` is past, and below the start of `J`
    have hpast : ∀ I ∈ pre, ¬ AtOrBelow (dirCmp cmp e) I.end_ I.endInclusive y := fun I hI =>
      not_atOrBelow_of_le (hcmp.dirCmp he) ((intervalCmp_eq_ahead_iff hcmp he I x).mp (hpre I hI)).2
        hxy
    rintro ⟨I, hI, hIy⟩
    rw [hl] at hasc hI
    exact hasc.not_contains_of_behind (hcmp.dirCmp he) hpast hy I hI hIy

/-- The interval found holds `x` exactly when some interval does. -/
theorem findIntervalForField_within_iff : location = .WITHIN ↔ oil.Denotes (dirCmp cmp e) x := by
  constructor
  · intro h
    obtain ⟨J, hJ, hx⟩ := findIntervalForField_within hcmp he hfound h
    exact ⟨J, List.mem_of_getElem? hJ, hx⟩
  · intro hx
    cases location with
    | WITHIN => rfl
    | BEHIND =>
      obtain ⟨J, -, hJx, hskip⟩ := findIntervalForField_behind hcmp he hfound hasc rfl
      exact absurd hx (hskip x (le_of_eq ((hcmp.dirCmp he).refl x)) hJx)
    | AHEAD =>
      exact absurd hx (findIntervalForField_ahead hcmp he hfound rfl x
        (le_of_eq ((hcmp.dirCmp he).refl x)))

end Found

end Direction

end Mongo.Query
