import Mathlib.Data.Nat.Digits.Lemmas

/-! Decimal numerals. `digits n` are the decimal digits of `n`, least significant first, with
the one digit `0` for zero, so that the numeral `Nat.toDigits 10 n` prints is their characters in
reverse. Going up by one turns a run of trailing nines into zeros and raises the digit before it,
or, when every digit is a nine, adds a digit one. -/

namespace Decimal

open List

/-- The decimal digits of `n`, least significant first; zero has the one digit `0`. -/
def digits (n : Nat) : List Nat := if n = 0 then [0] else Nat.digits 10 n

theorem digits_of_pos {n : Nat} (hn : 0 < n) : digits n = Nat.digits 10 n := by
  simp [digits, Nat.pos_iff_ne_zero.mp hn]

theorem ofDigits_digits (n : Nat) : Nat.ofDigits 10 (digits n) = n := by
  unfold digits
  split_ifs with h
  · simp [h, Nat.ofDigits]
  · exact Nat.ofDigits_digits 10 n

theorem lt_ten_of_mem_digits {n d : Nat} (hd : d ∈ digits n) : d < 10 := by
  unfold digits at hd
  split_ifs at hd
  · simp at hd
    omega
  · exact Nat.digits_lt_base (by norm_num) hd

theorem digits_ne_nil (n : Nat) : digits n ≠ [] := by
  unfold digits
  split_ifs with h
  · simp
  · exact Nat.digits_ne_nil_iff_ne_zero.mpr h

theorem toDigitsCore_eq : ∀ (fuel n : Nat) (ds : List Char), n < fuel → 0 < n →
    Nat.toDigitsCore 10 fuel n ds = ((Nat.digits 10 n).map Nat.digitChar).reverse ++ ds
  | 0, _, _, hf, _ => absurd hf (Nat.not_lt_zero _)
  | fuel + 1, n, ds, hf, hn => by
    rw [Nat.toDigitsCore, Nat.digits_def' (by norm_num) hn]
    split_ifs with h0
    · simp [h0]
    · rw [toDigitsCore_eq fuel (n / 10) _ (by omega) (by omega)]
      simp

/-- The numeral of `n` is the characters of its digits, most significant first. -/
theorem toDigits_eq (n : Nat) : Nat.toDigits 10 n = ((digits n).map Nat.digitChar).reverse := by
  unfold Nat.toDigits
  by_cases hn : n = 0
  · subst hn
    rfl
  · rw [toDigitsCore_eq (n + 1) n [] (by omega) (by omega), digits_of_pos (by omega), append_nil]

theorem ofDigits_replicate_nine (k : Nat) : Nat.ofDigits 10 (replicate k 9) = 10 ^ k - 1 := by
  induction k with
  | zero => rfl
  | succ k ih =>
    have hpow : 1 ≤ 10 ^ k := Nat.one_le_pow _ _ (by norm_num)
    rw [replicate_succ, Nat.ofDigits_cons, ih, pow_succ]
    omega

/-- Digits with no zero at the most significant end are the digits of their value. -/
theorem digits_ofDigits {l : List Nat} (hl : ∀ d ∈ l, d < 10) (hlast : ∀ h : l ≠ [], l.getLast h ≠ 0)
    (hne : l ≠ []) : digits (Nat.ofDigits 10 l) = l := by
  have hpos : Nat.ofDigits 10 l ≠ 0 := by
    intro h0
    have := Nat.digits_ofDigits 10 (by norm_num) l hl hlast
    rw [h0, Nat.digits_zero] at this
    exact hne this.symm
  rw [digits_of_pos (Nat.pos_of_ne_zero hpos)]
  exact Nat.digits_ofDigits 10 (by norm_num) l hl hlast

theorem getLast_digits_ne_zero {n : Nat} (hn : 0 < n) (h : digits n ≠ []) :
    (digits n).getLast h ≠ 0 := by
  simp only [digits_of_pos hn]
  exact Nat.getLast_digit_ne_zero 10 (by omega)

/-- Going up by one turns the trailing nines into zeros and raises the digit before them. -/
theorem digits_succ_of_lt_nine {n k d : Nat} {rest : List Nat}
    (h : digits n = replicate k 9 ++ d :: rest) (hd : d < 9) :
    digits (n + 1) = replicate k 0 ++ (d + 1) :: rest := by
  have hval : n + 1 = Nat.ofDigits 10 (replicate k 0 ++ (d + 1) :: rest) := by
    have hn := ofDigits_digits n
    rw [h, Nat.ofDigits_append, Nat.ofDigits_cons, ofDigits_replicate_nine, length_replicate] at hn
    rw [Nat.ofDigits_append, Nat.ofDigits_cons, Nat.ofDigits_replicate_zero, length_replicate]
    have hpow : 1 ≤ 10 ^ k := Nat.one_le_pow _ _ (by norm_num)
    have hsplit : 10 ^ k * (d + 1 + 10 * Nat.ofDigits 10 rest) =
        10 ^ k * (d + 10 * Nat.ofDigits 10 rest) + 10 ^ k := by ring
    rw [zero_add, hsplit, ← hn]
    omega
  rw [hval]
  apply digits_ofDigits
  · intro e he
    simp only [mem_append, mem_replicate, mem_cons] at he
    rcases he with ⟨-, rfl⟩ | rfl | he
    · norm_num
    · omega
    · exact lt_ten_of_mem_digits (by rw [h]; simp [he])
  · intro hne
    cases rest with
    | nil => simp
    | cons e rest =>
      -- the most significant digit is that of `n`
      have hpos : 0 < n := by
        rcases Nat.eq_zero_or_pos n with rfl | hpos
        · have hlen := congrArg length h
          simp [digits] at hlen
          omega
        · exact hpos
      have hlast := getLast_digits_ne_zero hpos (digits_ne_nil n)
      simp only [h] at hlast
      simpa using hlast
  · simp

/-- A numeral of nines is one below a power of ten, and the next numeral is a one and zeros. -/
theorem digits_succ_of_nines {n k : Nat} (h : digits n = replicate k 9) :
    n + 1 = 10 ^ k ∧ digits (n + 1) = replicate k 0 ++ [1] := by
  have hn := ofDigits_digits n
  rw [h, ofDigits_replicate_nine] at hn
  have hpow : 1 ≤ 10 ^ k := Nat.one_le_pow _ _ (by norm_num)
  have hval : n + 1 = 10 ^ k := by omega
  refine ⟨hval, ?_⟩
  have hof : Nat.ofDigits 10 (replicate k 0 ++ [1]) = 10 ^ k := by
    rw [Nat.ofDigits_append, Nat.ofDigits_replicate_zero, length_replicate, Nat.ofDigits_singleton]
    simp
  rw [hval, ← hof]
  apply digits_ofDigits
  · intro e he
    simp only [mem_append, mem_replicate, mem_singleton] at he
    omega
  · intro hne
    simp
  · simp

/-- Every numeral is a run of nines, or a run of nines after a digit below nine. -/
theorem digits_eq_nines_or (n : Nat) : (∃ k, digits n = replicate k 9) ∨
    ∃ k d rest, d < 9 ∧ digits n = replicate k 9 ++ d :: rest := by
  have hlt := fun d (hd : d ∈ digits n) => lt_ten_of_mem_digits hd
  generalize digits n = l at hlt
  induction l with
  | nil => exact .inl ⟨0, rfl⟩
  | cons d rest ih =>
    have hd := hlt d (mem_cons_self ..)
    by_cases h9 : d = 9
    · subst h9
      rcases ih (fun e he => hlt e (mem_cons_of_mem _ he)) with ⟨k, hk⟩ | ⟨k, e, rest', he, hk⟩
      · exact .inl ⟨k + 1, by rw [hk, replicate_succ]⟩
      · exact .inr ⟨k + 1, e, rest', he, by rw [hk, replicate_succ, cons_append]⟩
    · exact .inr ⟨0, d, rest, by omega, rfl⟩

/-- A number below `10 ^ e` has at most `e` digits. -/
theorem length_digits_le {n e : Nat} (he : 0 < e) (hn : n < 10 ^ e) : (digits n).length ≤ e := by
  unfold digits
  split_ifs with h0
  · simpa using Nat.one_le_iff_ne_zero.mpr he.ne'
  · exact (Nat.digits_length_le_iff (by norm_num) n).mpr hn

/-! ## Numerals of a fixed width -/

/-- `n` in decimal, with zeros in front up to `w` characters. -/
def padded (w n : Nat) : List Char :=
  replicate (w - (Nat.toDigits 10 n).length) '0' ++ Nat.toDigits 10 n

/-- A number below `10 ^ w` takes exactly `w` characters. -/
theorem length_padded {w n : Nat} (hw : 0 < w) (hn : n < 10 ^ w) : (padded w n).length = w := by
  have hle : (Nat.toDigits 10 n).length ≤ w := (Nat.length_toDigits_le_iff (by decide) hw).mpr hn
  simp only [padded, length_append, length_replicate]
  omega

/-- A number of at least `w` digits is written the same in every width up to `w`. -/
theorem padded_eq_padded {v w n : Nat} (hv : v ≤ w) (hn : 10 ^ (w - 1) ≤ n) :
    padded v n = padded w n := by
  have hlen : w ≤ (Nat.toDigits 10 n).length := by
    by_contra hlt
    have hne : (Nat.toDigits 10 n).length ≠ 0 := by simp [Nat.toDigits_ne_nil]
    -- fewer than `w` digits would put `n` below `10 ^ (w - 1)`
    have hsmall : n < 10 ^ (w - 1) :=
      (@Nat.length_toDigits_le_iff 10 n (w - 1) (by decide) (by omega)).mp (by omega)
    omega
  simp only [padded, Nat.sub_eq_zero_of_le (le_trans hv hlen), Nat.sub_eq_zero_of_le hlen]

/-- Every character of a padded numeral is a decimal digit. -/
theorem isDigit_of_mem_padded {w n : Nat} {c : Char} (h : c ∈ padded w n) : c.isDigit = true := by
  rcases mem_append.mp h with h | h
  · rw [eq_of_mem_replicate h]
    decide
  · rw [toDigits_eq, mem_reverse, mem_map] at h
    obtain ⟨d, hd, rfl⟩ := h
    rw [Nat.isDigit_digitChar, decide_eq_true_eq]
    exact lt_ten_of_mem_digits hd

/-- A padded numeral reads back as its number. -/
theorem ofDigitChars_padded (w n : Nat) : Nat.ofDigitChars 10 (padded w n) 0 = n := by
  rw [padded, Nat.ofDigitChars_append, Nat.ofDigitChars_replicate_zero, Nat.mul_zero,
    Nat.ofDigitChars_toDigits (by decide) le_rfl]

/-- A string of `k` decimal digits stands for a number below `10 ^ k`; the induction carries the
value read so far. -/
theorem ofDigitChars_lt : ∀ {cs : List Char} {init : Nat}, (∀ c ∈ cs, c.isDigit = true) →
    Nat.ofDigitChars 10 cs init < 10 ^ cs.length * (init + 1)
  | [], init, _ => by simp [Nat.ofDigitChars_nil]
  | c :: cs, init, hd => by
    have hc : c.toNat - '0'.toNat < 10 := by
      have := Char.isDigit_iff_toNat.mp (hd c mem_cons_self)
      have h0 : '0'.toNat = 48 := rfl
      have h9 : '9'.toNat = 57 := rfl
      omega
    have ih := @ofDigitChars_lt cs (10 * init + (c.toNat - '0'.toNat))
      fun c' h => hd c' (mem_cons_of_mem c h)
    rw [Nat.ofDigitChars_cons, length_cons, Nat.pow_succ]
    calc Nat.ofDigitChars 10 cs (10 * init + (c.toNat - '0'.toNat))
        < 10 ^ cs.length * (10 * init + (c.toNat - '0'.toNat) + 1) := ih
      _ ≤ 10 ^ cs.length * (10 * (init + 1)) := Nat.mul_le_mul_left _ (by omega)
      _ = 10 ^ cs.length * 10 * (init + 1) := by rw [Nat.mul_assoc]

/-- The value of a string of digits, cut after its first `k` characters. -/
theorem ofDigitChars_take_drop (l : List Char) (k : Nat) :
    Nat.ofDigitChars 10 l 0 = 10 ^ (l.drop k).length * Nat.ofDigitChars 10 (l.take k) 0 +
      Nat.ofDigitChars 10 (l.drop k) 0 := by
  conv_lhs => rw [← take_append_drop k l]
  rw [Nat.ofDigitChars_append, Nat.ofDigitChars_eq_ofDigitChars_zero]

end Decimal
