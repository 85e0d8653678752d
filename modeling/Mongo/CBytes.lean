import Mathlib.Algebra.Order.Ring.Int
import Mongo.LexOrder

/-! The byte comparisons of the C library, `memcmp` and `strcmp`, on byte lists, and their
relation to the lexicographic order `compare` of `List UInt8`. -/

namespace CBytes

open LexOrder

/-- `memcmp(a, b, n)`: the difference of the first differing bytes among the first `n`, as
unsigned values. Callers never read past either buffer. -/
def memcmp : List UInt8 → List UInt8 → Nat → Int
  | _, _, 0 => 0
  | x :: xs, y :: ys, n + 1 => if x = y then memcmp xs ys n else (x.toNat : Int) - y.toNat
  | _, _, _ + 1 => 0

/-- `strcmp(a, b)` of two NUL-terminated strings, given by their bytes before the terminator;
a NUL inside a list ends the string there. -/
def strcmp : List UInt8 → List UInt8 → Int
  | [], [] => 0
  | [], y :: _ => -(y.toNat : Int)
  | x :: _, [] => x.toNat
  | x :: xs, y :: ys =>
    if x = y then (if x = 0 then 0 else strcmp xs ys) else (x.toNat : Int) - y.toNat

/-- The C string a byte list stands for: its bytes up to the first NUL. -/
def cstr (a : List UInt8) : List UInt8 := a.takeWhile (· != 0)

@[simp] theorem memcmp_zero (a b : List UInt8) : memcmp a b 0 = 0 := by
  cases a <;> cases b <;> rfl

theorem memcmp_cons_cons (x y : UInt8) (xs ys : List UInt8) (n : Nat) :
    memcmp (x :: xs) (y :: ys) (n + 1) =
      if x = y then memcmp xs ys n else (x.toNat : Int) - y.toNat := rfl

/-- The byte difference that `memcmp` and `strcmp` return has the sign of the byte order. -/
theorem compare_sub_toNat (x y : UInt8) : compare ((x.toNat : Int) - y.toNat) 0 = compare x y := by
  show _ = compareOfLessAndEq x y
  unfold compareOfLessAndEq
  rcases lt_trichotomy x.toNat y.toNat with h | h | h
  · have hxy : x < y := UInt8.lt_iff_toNat_lt.mpr h
    rw [if_pos hxy, compare_lt_iff_lt.mpr (by omega)]
  · have hxy : x = y := UInt8.toNat_inj.mp h
    subst hxy
    simp
  · have hxy : ¬x < y := fun hl => by have := UInt8.lt_iff_toNat_lt.mp hl; omega
    have hne : x ≠ y := fun he => by rw [he] at h; omega
    rw [if_neg hxy, if_neg hne, compare_gt_iff_gt.mpr (by omega)]

theorem compare_eq_of_ne {x y : UInt8} (h : x ≠ y) : compare x y ≠ .eq :=
  fun he => h (Std.LawfulEqCmp.eq_of_compare he)

theorem compare_succ_succ (a b : Nat) : compare (a + 1) (b + 1) = compare a b := by
  simp [Nat.compare_eq_ite_lt]

/-- `memcmp` over the common length, with ties broken by length, is the lexicographic order. -/
theorem compare_memcmp_then_length (a b : List UInt8) :
    (compare (memcmp a b (min a.length b.length)) 0).then (compare a.length b.length) =
      compare a b := by
  induction a generalizing b with
  | nil => cases b <;> rfl
  | cons x a ih =>
    cases b with
    | nil => rfl
    | cons y b =>
      rw [List.length_cons, List.length_cons, Nat.add_min_add_right, memcmp_cons_cons,
        List.compare_cons_cons, compare_succ_succ]
      by_cases hxy : x = y
      · subst hxy
        have hxx : compare x x = .eq := Std.ReflCmp.compare_self
        rw [if_pos rfl, hxx, Ordering.eq_then, ih b]
      · rw [if_neg hxy, compare_sub_toNat, then_of_ne_eq (compare_eq_of_ne hxy),
          then_of_ne_eq (compare_eq_of_ne hxy)]

theorem compare_memcmp_of_length_eq {a b : List UInt8} (h : a.length = b.length) :
    compare (memcmp a b a.length) 0 = compare a b := by
  have hc : compare a.length b.length = .eq := by rw [h]; exact Std.ReflCmp.compare_self
  rw [← compare_memcmp_then_length, hc, Ordering.then_eq, h, Nat.min_self]

theorem toNat_pos {y : UInt8} (hy : y ≠ 0) : 0 < y.toNat := by
  rcases Nat.eq_zero_or_pos y.toNat with h | h
  · exact absurd (UInt8.toNat_inj.mp (h.trans UInt8.toNat_zero.symm)) hy
  · exact h

theorem compare_zero_left {y : UInt8} (hy : y ≠ 0) : compare (0 : UInt8) y = .lt := by
  rw [← compare_sub_toNat]
  have := toNat_pos hy
  simp only [UInt8.toNat_zero, Nat.cast_zero, zero_sub]
  exact compare_lt_iff_lt.mpr (by omega)

/-- `memcmp` of two NUL-terminated byte strings over the shorter one and its terminator,
with ties broken by length, is the lexicographic order of the strings (NULs inside count
as bytes). -/
theorem compare_memcmp_nul_then_length (a b : List UInt8) :
    (compare (memcmp (a ++ [0]) (b ++ [0]) (min a.length b.length + 1)) 0).then
      (compare a.length b.length) = compare a b := by
  induction a generalizing b with
  | nil =>
    cases b with
    | nil => rfl
    | cons y b =>
      rw [List.nil_append, List.cons_append, List.length_nil, Nat.zero_min, memcmp_cons_cons]
      by_cases hy : (0 : UInt8) = y
      · subst hy
        rfl
      · rw [if_neg hy, compare_sub_toNat, compare_zero_left (Ne.symm hy)]
        rfl
  | cons x a ih =>
    cases b with
    | nil =>
      rw [List.nil_append, List.cons_append, List.length_nil, Nat.min_zero, memcmp_cons_cons]
      by_cases hx : x = 0
      · subst hx
        simp [Nat.compare_eq_ite_lt]
      · have hx0 : compare x 0 = .gt := by
          rw [(Std.OrientedCmp.eq_swap : compare x 0 = (compare 0 x).swap), compare_zero_left hx]
          rfl
        rw [if_neg hx, compare_sub_toNat, hx0]
        rfl
    | cons y b =>
      rw [List.cons_append, List.cons_append, List.length_cons, List.length_cons,
        Nat.add_min_add_right, memcmp_cons_cons, List.compare_cons_cons, compare_succ_succ]
      by_cases hxy : x = y
      · subst hxy
        have hxx : compare x x = .eq := Std.ReflCmp.compare_self
        rw [if_pos rfl, hxx, Ordering.eq_then, ih b]
      · rw [if_neg hxy, compare_sub_toNat, then_of_ne_eq (compare_eq_of_ne hxy),
          then_of_ne_eq (compare_eq_of_ne hxy)]

theorem compare_gt_zero {x : UInt8} (hx : x ≠ 0) : compare x (0 : UInt8) = .gt := by
  rw [(Std.OrientedCmp.eq_swap : compare x 0 = (compare 0 x).swap), compare_zero_left hx]
  rfl

@[simp] theorem cstr_nil : cstr [] = [] := rfl

theorem cstr_cons (x : UInt8) (a : List UInt8) :
    cstr (x :: a) = if x = 0 then [] else x :: cstr a := by
  by_cases hx : x = 0 <;> simp [cstr, hx]

/-- `strcmp` is the lexicographic order of the C strings. -/
theorem compare_strcmp (a b : List UInt8) : compare (strcmp a b) 0 = compare (cstr a) (cstr b) := by
  induction a generalizing b with
  | nil =>
    cases b with
    | nil => rfl
    | cons y b =>
      rw [strcmp, cstr_nil, cstr_cons]
      by_cases hy : y = 0
      · subst hy
        rfl
      · have := toNat_pos hy
        rw [if_neg hy, compare_lt_iff_lt.mpr (by omega)]
        rfl
  | cons x a ih =>
    cases b with
    | nil =>
      rw [strcmp, cstr_nil, cstr_cons]
      by_cases hx : x = 0
      · subst hx
        rfl
      · have := toNat_pos hx
        rw [if_neg hx, compare_gt_iff_gt.mpr (by omega)]
        rfl
    | cons y b =>
      rw [strcmp, cstr_cons, cstr_cons]
      by_cases hxy : x = y
      · subst hxy
        by_cases hx : x = 0
        · subst hx
          rfl
        · have hxx : compare x x = .eq := Std.ReflCmp.compare_self
          simp only [if_neg hx, if_true]
          rw [ih b, List.compare_cons_cons, hxx, Ordering.eq_then]
      · rw [if_neg hxy, compare_sub_toNat]
        -- a terminator on one side sorts below the other byte
        by_cases hx : x = 0
        · subst hx
          rw [if_pos rfl, if_neg (Ne.symm hxy), compare_zero_left (Ne.symm hxy)]
          rfl
        · by_cases hy : y = 0
          · subst hy
            rw [if_neg hx, if_pos rfl, compare_gt_zero hx]
            rfl
          · rw [if_neg hx, if_neg hy, List.compare_cons_cons,
              then_of_ne_eq (compare_eq_of_ne hxy)]

/-- Lists with prefixes of equal length compare by the prefixes, then by the rest. -/
theorem compare_append_of_length_eq {a₁ b₁ : List UInt8} (a₂ b₂ : List UInt8)
    (h : a₁.length = b₁.length) :
    compare (a₁ ++ a₂) (b₁ ++ b₂) = (compare a₁ b₁).then (compare a₂ b₂) := by
  induction a₁ generalizing b₁ with
  | nil =>
    cases b₁ with
    | nil => rfl
    | cons _ _ => simp at h
  | cons x a₁ ih =>
    cases b₁ with
    | nil => simp at h
    | cons y b₁ =>
      rw [List.cons_append, List.cons_append, List.compare_cons_cons, List.compare_cons_cons,
        ih (by simpa using h), Ordering.then_assoc]

/-- Byte strings in lexicographic order form a total preorder on any set. -/
theorem totalPreorderOn_compare_bytes {S : List UInt8 → Prop} :
    TotalPreorderOn (compare : List UInt8 → List UInt8 → Ordering) S :=
  totalPreorderOn_transCmp

end CBytes
