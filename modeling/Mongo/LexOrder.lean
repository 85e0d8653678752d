import Mathlib

/-! Total preorders given by an `Ordering`-valued comparison on a subset of a type, and
their closure under `Ordering.then` and under lexicographic comparison of lists. The subset
is what lets a recursive comparison be handled by induction on depth: the comparison of
nested values is known to be a preorder only on the values of smaller depth. -/

namespace LexOrder

variable {α : Type*}

/-- `cmp` is a total preorder on the values that satisfy `S`: swapping the arguments swaps
the result, and `isLE` is transitive. -/
structure TotalPreorderOn (cmp : α → α → Ordering) (S : α → Prop) : Prop where
  swap : ∀ a b, S a → S b → cmp b a = (cmp a b).swap
  le_trans : ∀ a b c, S a → S b → S c → (cmp a b).isLE → (cmp b c).isLE → (cmp a c).isLE

theorem then_of_ne_eq {o : Ordering} (h : o ≠ .eq) (p : Ordering) : o.then p = o := by
  cases o <;> simp_all

/-- The tail of `then` matters only after a tie. -/
theorem then_congr {o p q : Ordering} (h : o = .eq → p = q) : o.then p = o.then q := by
  cases o <;> simp_all

/-- A strictly monotone map between linear orders keeps `compare`. -/
theorem compare_strictMono {β γ : Type*} [LinearOrder β] [LinearOrder γ] {f : β → γ}
    (hf : StrictMono f) (a b : β) : compare (f a) (f b) = compare a b := by
  rcases lt_trichotomy a b with h | rfl | h
  · rw [compare_lt_iff_lt.mpr h, compare_lt_iff_lt.mpr (hf h)]
  · rw [compare_eq_iff_eq.mpr rfl, compare_eq_iff_eq.mpr rfl]
  · rw [compare_gt_iff_gt.mpr h, compare_gt_iff_gt.mpr (hf h)]

/-- A comparison with the laws of `Std.TransCmp`, such as `compare` on a linear order or on
lists of bytes, is a total preorder on every set. -/
theorem totalPreorderOn_transCmp {cmp : α → α → Ordering} [Std.TransCmp cmp] {S : α → Prop} :
    TotalPreorderOn cmp S :=
  ⟨fun _ _ _ _ => Std.OrientedCmp.eq_swap, fun _ _ _ _ _ _ hab hbc => Std.TransCmp.isLE_trans hab hbc⟩

theorem totalPreorderOn_compare {β : Type*} [LinearOrder β] {S : β → Prop} :
    TotalPreorderOn (compare : β → β → Ordering) S :=
  totalPreorderOn_transCmp

namespace TotalPreorderOn

variable {cmp : α → α → Ordering} {S : α → Prop} {a b c : α}

theorem refl (h : TotalPreorderOn cmp S) (ha : S a) : cmp a a = .eq := by
  have hs := h.swap a a ha ha
  cases hc : cmp a a <;> simp_all

theorem lt_of_lt_of_le (h : TotalPreorderOn cmp S) (ha : S a) (hb : S b) (hc : S c)
    (hab : cmp a b = .lt) (hbc : (cmp b c).isLE) : cmp a c = .lt := by
  by_contra hne
  -- from `c ≤ a` and `b ≤ c` the order would give `b ≤ a`, against `a < b`
  have hca : (cmp c a).isLE := by
    rw [h.swap a c ha hc]
    cases hac : cmp a c <;> simp_all
  have hba := h.le_trans b c a hb hc ha hbc hca
  rw [h.swap a b ha hb, hab] at hba
  simp at hba

theorem lt_of_le_of_lt (h : TotalPreorderOn cmp S) (ha : S a) (hb : S b) (hc : S c)
    (hab : (cmp a b).isLE) (hbc : cmp b c = .lt) : cmp a c = .lt := by
  by_contra hne
  have hca : (cmp c a).isLE := by
    rw [h.swap a c ha hc]
    cases hac : cmp a c <;> simp_all
  have hcb := h.le_trans c a b hc ha hb hca hab
  rw [h.swap b c hb hc, hbc] at hcb
  simp at hcb

theorem eq_trans (h : TotalPreorderOn cmp S) (ha : S a) (hb : S b) (hc : S c)
    (hab : cmp a b = .eq) (hbc : cmp b c = .eq) : cmp a c = .eq := by
  have hle := h.le_trans a b c ha hb hc (by simp [hab]) (by simp [hbc])
  have hba : cmp b a = .eq := by rw [h.swap a b ha hb, hab]; rfl
  have hcb : cmp c b = .eq := by rw [h.swap b c hb hc, hbc]; rfl
  have hge := h.le_trans c b a hc hb ha (by simp [hcb]) (by simp [hba])
  rw [h.swap a c ha hc] at hge
  cases hac : cmp a c <;> simp_all

theorem mono {T : α → Prop} (h : TotalPreorderOn cmp S) (hT : ∀ x, T x → S x) :
    TotalPreorderOn cmp T :=
  ⟨fun a b ha hb => h.swap a b (hT a ha) (hT b hb),
    fun a b c ha hb hc => h.le_trans a b c (hT a ha) (hT b hb) (hT c hc)⟩

theorem of_eq {cmp' : α → α → Ordering} (h : TotalPreorderOn cmp' S)
    (heq : ∀ a b, S a → S b → cmp a b = cmp' a b) : TotalPreorderOn cmp S := by
  constructor
  · intro a b ha hb
    rw [heq a b ha hb, heq b a hb ha, h.swap a b ha hb]
  · intro a b c ha hb hc hab hbc
    rw [heq a b ha hb] at hab
    rw [heq b c hb hc] at hbc
    rw [heq a c ha hc]
    exact h.le_trans a b c ha hb hc hab hbc

/-- A total preorder pulled back along a map into its carrier. -/
theorem comap {β : Type*} {cmp' : β → β → Ordering} {T : β → Prop} (h : TotalPreorderOn cmp' T)
    (f : α → β) (hf : ∀ a, S a → T (f a)) : TotalPreorderOn (fun a b => cmp' (f a) (f b)) S :=
  ⟨fun a b ha hb => h.swap _ _ (hf a ha) (hf b hb),
    fun a b c ha hb hc => h.le_trans _ _ _ (hf a ha) (hf b hb) (hf c hc)⟩

/-- Comparing through a key whose comparison is a total preorder everywhere. -/
theorem of_key {β : Type*} {cmp' : β → β → Ordering} (h : TotalPreorderOn cmp' (fun _ => True))
    (f : α → β) : TotalPreorderOn (fun a b => cmp' (f a) (f b)) S :=
  h.comap f (fun _ _ => trivial)

/-- A comparison on the image of a map is a total preorder when it is one on the preimage:
used for the values of one constructor, compared through the constructor's arguments. -/
theorem of_surj {β : Type*} {cmp' : β → β → Ordering} {T : β → Prop} (h : TotalPreorderOn cmp' T)
    (g : β → α) (hg : ∀ a, S a → ∃ x, T x ∧ g x = a)
    (heq : ∀ x y, T x → T y → cmp (g x) (g y) = cmp' x y) : TotalPreorderOn cmp S := by
  constructor
  · intro a b ha hb
    obtain ⟨x, hx, rfl⟩ := hg a ha
    obtain ⟨y, hy, rfl⟩ := hg b hb
    rw [heq x y hx hy, heq y x hy hx, h.swap x y hx hy]
  · intro a b c ha hb hc hab hbc
    obtain ⟨x, hx, rfl⟩ := hg a ha
    obtain ⟨y, hy, rfl⟩ := hg b hb
    obtain ⟨z, hz, rfl⟩ := hg c hc
    rw [heq x y hx hy] at hab
    rw [heq y z hy hz] at hbc
    rw [heq x z hx hz]
    exact h.le_trans x y z hx hy hz hab hbc

/-- Reversing a total preorder gives a total preorder. -/
theorem swap_cmp (h : TotalPreorderOn cmp S) : TotalPreorderOn (fun a b => (cmp a b).swap) S := by
  refine ⟨fun a b ha hb => by rw [h.swap a b ha hb], fun a b c ha hb hc hab hbc => ?_⟩
  rw [← h.swap a b ha hb] at hab
  rw [← h.swap b c hb hc] at hbc
  rw [← h.swap a c ha hc]
  exact h.le_trans c b a hc hb ha hbc hab

/-- A total preorder, reversed or not. -/
theorem swapIf (h : TotalPreorderOn cmp S) (b : Bool) :
    TotalPreorderOn (fun a c => if b then (cmp a c).swap else cmp a c) S := by
  cases b
  · exact h
  · exact h.swap_cmp

/-- A comparison refined by a second one that is only consulted, and only needs to be a
preorder, between values the first one finds equal. -/
theorem then_of_eq {cmp' : α → α → Ordering} (h : TotalPreorderOn cmp S)
    (hswap : ∀ a b, S a → S b → cmp a b = .eq → cmp' b a = (cmp' a b).swap)
    (htrans : ∀ a b c, S a → S b → S c → cmp a b = .eq → cmp b c = .eq →
      (cmp' a b).isLE → (cmp' b c).isLE → (cmp' a c).isLE) :
    TotalPreorderOn (fun a b => (cmp a b).then (cmp' a b)) S := by
  constructor
  · intro a b ha hb
    rw [h.swap a b ha hb]
    cases hab : cmp a b with
    | eq => simp [Ordering.swap, Ordering.then, hswap a b ha hb hab]
    | lt => rfl
    | gt => rfl
  · intro a b c ha hb hc hab hbc
    simp only [Ordering.isLE_then_iff_or] at hab hbc ⊢
    rcases hab with hab | ⟨hab, hab'⟩
    · exact .inl (h.lt_of_lt_of_le ha hb hc hab
        (by rcases hbc with hbc | ⟨hbc, -⟩ <;> simp [hbc]))
    · rcases hbc with hbc | ⟨hbc, hbc'⟩
      · exact .inl (h.lt_of_le_of_lt ha hb hc (by simp [hab]) hbc)
      · exact .inr ⟨h.eq_trans ha hb hc hab hbc, htrans a b c ha hb hc hab hbc hab' hbc'⟩

/-- Two total preorders, the second breaking the ties of the first. -/
theorem andThen {cmp' : α → α → Ordering} (h : TotalPreorderOn cmp S) (h' : TotalPreorderOn cmp' S) :
    TotalPreorderOn (fun a b => (cmp a b).then (cmp' a b)) S :=
  h.then_of_eq (fun a b ha hb _ => h'.swap a b ha hb)
    (fun a b c ha hb hc _ _ => h'.le_trans a b c ha hb hc)

/-- Sorting by a key first, then within each fiber of the key by a comparison that is a total
preorder on that fiber. -/
theorem then_of_fibers {β : Type*} [LinearOrder β] {cmp' : α → α → Ordering} (f : α → β)
    (h : ∀ k, TotalPreorderOn cmp' (fun a => S a ∧ f a = k)) :
    TotalPreorderOn (fun a b => (compare (f a) (f b)).then (cmp' a b)) S := by
  refine ((totalPreorderOn_compare (S := fun _ => True)).comap f (fun _ _ => trivial)).then_of_eq ?_ ?_
  · intro a b ha hb hab
    have hk : f b = f a := (compare_eq_iff_eq.mp hab).symm
    exact (h (f a)).swap a b ⟨ha, rfl⟩ ⟨hb, hk⟩
  · intro a b c ha hb hc hab hbc
    have hk : f b = f a := (compare_eq_iff_eq.mp hab).symm
    have hk' : f c = f a := (compare_eq_iff_eq.mp hbc).symm.trans hk
    exact (h (f a)).le_trans a b c ⟨ha, rfl⟩ ⟨hb, hk⟩ ⟨hc, hk'⟩

end TotalPreorderOn

/-- Lexicographic comparison of lists in which the comparison of two elements may depend
on their position, counted from `i`; a proper prefix comes first. -/
def compareLexFrom (cmp : Nat → α → α → Ordering) : Nat → List α → List α → Ordering
  | _, [], [] => .eq
  | _, [], _ :: _ => .lt
  | _, _ :: _, [] => .gt
  | i, a :: as, b :: bs => (cmp i a b).then (compareLexFrom cmp (i + 1) as bs)

variable {cmp : Nat → α → α → Ordering} {S : α → Prop}

@[simp] theorem compareLexFrom_nil_nil (i : Nat) : compareLexFrom cmp i [] [] = .eq := rfl

@[simp] theorem compareLexFrom_nil_cons (i : Nat) (b : α) (bs : List α) :
    compareLexFrom cmp i [] (b :: bs) = .lt := rfl

@[simp] theorem compareLexFrom_cons_nil (i : Nat) (a : α) (as : List α) :
    compareLexFrom cmp i (a :: as) [] = .gt := rfl

@[simp] theorem compareLexFrom_cons_cons (i : Nat) (a b : α) (as bs : List α) :
    compareLexFrom cmp i (a :: as) (b :: bs) =
      (cmp i a b).then (compareLexFrom cmp (i + 1) as bs) := rfl

/-- The lists whose elements all lie in `S`. -/
def AllIn (S : α → Prop) (l : List α) : Prop := ∀ x ∈ l, S x

@[simp] theorem allIn_nil : AllIn S [] := by simp [AllIn]

@[simp] theorem allIn_cons {a : α} {l : List α} : AllIn S (a :: l) ↔ S a ∧ AllIn S l := by
  simp [AllIn]

theorem compareLexFrom_swap (h : ∀ i, TotalPreorderOn (cmp i) S) :
    ∀ (i : Nat) (as bs : List α), AllIn S as → AllIn S bs →
      compareLexFrom cmp i bs as = (compareLexFrom cmp i as bs).swap
  | _, [], [], _, _ => rfl
  | _, [], _ :: _, _, _ => rfl
  | _, _ :: _, [], _, _ => rfl
  | i, a :: as, b :: bs, ha, hb => by
    rw [allIn_cons] at ha hb
    rw [compareLexFrom_cons_cons, compareLexFrom_cons_cons, Ordering.swap_then,
      (h i).swap a b ha.1 hb.1, compareLexFrom_swap h (i + 1) as bs ha.2 hb.2]

theorem compareLexFrom_le_trans (h : ∀ i, TotalPreorderOn (cmp i) S) :
    ∀ (i : Nat) (as bs cs : List α), AllIn S as → AllIn S bs → AllIn S cs →
      (compareLexFrom cmp i as bs).isLE → (compareLexFrom cmp i bs cs).isLE →
      (compareLexFrom cmp i as cs).isLE
  | _, [], _, [], _, _, _, _, _ => rfl
  | _, [], _, _ :: _, _, _, _, _, _ => rfl
  | _, _ :: _, [], _, _, _, _, hab, _ => by simp at hab
  | _, _ :: _, _ :: _, [], _, _, _, _, hbc => by simp at hbc
  | i, a :: as, b :: bs, c :: cs, ha, hb, hc, hab, hbc => by
    rw [allIn_cons] at ha hb hc
    simp only [compareLexFrom_cons_cons, Ordering.isLE_then_iff_or] at hab hbc ⊢
    -- the heads decide unless both steps are ties, where the tails carry the order
    rcases hab with hab | ⟨hab, hab'⟩
    · exact .inl ((h i).lt_of_lt_of_le ha.1 hb.1 hc.1 hab
        (by rcases hbc with hbc | ⟨hbc, -⟩ <;> simp [hbc]))
    · rcases hbc with hbc | ⟨hbc, hbc'⟩
      · exact .inl ((h i).lt_of_le_of_lt ha.1 hb.1 hc.1 (by simp [hab]) hbc)
      · exact .inr ⟨(h i).eq_trans ha.1 hb.1 hc.1 hab hbc,
          compareLexFrom_le_trans h (i + 1) as bs cs ha.2 hb.2 hc.2 hab' hbc'⟩

/-- Lexicographic comparison of lists over `S` is a total preorder when every positional
comparison is. -/
theorem totalPreorderOn_compareLexFrom (h : ∀ i, TotalPreorderOn (cmp i) S) (i : Nat) :
    TotalPreorderOn (compareLexFrom cmp i) (AllIn S) :=
  ⟨fun as bs ha hb => compareLexFrom_swap h i as bs ha hb,
    fun as bs cs ha hb hc => compareLexFrom_le_trans h i as bs cs ha hb hc⟩

end LexOrder
