import Mongo.Decimal

/-! `DecimalCounter<T>` of `util/decimal_counter.h`: an unsigned counter kept beside its decimal
numeral, in a buffer of `digits10 + 2` characters. An increment raises the last digit and carries
over the nines before it, and adds a digit when they are all nines and the buffer has room; when
the binary counter wraps to zero the whole object is reset. The numeral stays that of the counter
because the buffer has room for every numeral below `2 ^ digits`, and the first one it has no
room for is past the wrap. -/

namespace Mongo

open List

/-- The unsigned types `DecimalCounter` is instantiated with. -/
inductive UnsignedType
  | uint8_t
  | uint16_t
  | uint32_t
  | uint64_t
  deriving DecidableEq, Repr

namespace UnsignedType

/-- `std::numeric_limits<T>::digits`, the width in bits. -/
def digits : UnsignedType → Nat
  | uint8_t => 8
  | uint16_t => 16
  | uint32_t => 32
  | uint64_t => 64

/-- `std::numeric_limits<T>::digits10`: every numeral of that many digits is a value. -/
def digits10 : UnsignedType → Nat
  | uint8_t => 2
  | uint16_t => 4
  | uint32_t => 9
  | uint64_t => 19

/-- Every value has a numeral of at most `digits10 + 1` digits. -/
theorem two_pow_digits_lt (T : UnsignedType) : 2 ^ T.digits < 10 ^ (T.digits10 + 1) := by
  cases T <;> decide

end UnsignedType

/-- `DecimalCounter<T>`: `_digits`, `_lastDigitIndex` and `_counter`. -/
structure DecimalCounter (T : UnsignedType) where
  digits : List Char
  lastDigitIndex : Nat
  counter : Nat
  deriving DecidableEq, Repr

namespace DecimalCounter

variable {T : UnsignedType}

/-- `kBufSize`: one more than `digits10` for the most digits, and one for the final `'\0'`. -/
def kBufSize (T : UnsignedType) : Nat := T.digits10 + 2

/-- A default-constructed counter: the numeral `"0"`, the rest of the buffer zero. -/
def init (T : UnsignedType) : DecimalCounter T :=
  ⟨'0' :: replicate (kBufSize T - 1) (Char.ofNat 0), 0, 0⟩

/-- `operator StringData()`: the characters up to the last digit. -/
def toStringData (c : DecimalCounter T) : List Char := c.digits.take (c.lastDigitIndex + 1)

/-- `(*p)++` on a character. -/
def charSucc (c : Char) : Char := Char.ofNat (c.toNat + 1)

/-- The `while` loop of `operator++`: from `lastPtr`, `zeroPtr` moves back over the `'9'`s before
it. -/
def nineRunStart (digits : List Char) : Nat → Nat
  | 0 => 0
  | zeroPtr + 1 =>
    if digits.getD zeroPtr (Char.ofNat 0) = '9' then nineRunStart digits zeroPtr else zeroPtr + 1

/-- `do { *zeroPtr++ = '0'; } while (zeroPtr <= lastPtr);` for `lastPtr = zeroPtr + count`. -/
def zeroOut (digits : List Char) (zeroPtr : Nat) : Nat → List Char
  | 0 => digits.set zeroPtr '0'
  | count + 1 => zeroOut (digits.set zeroPtr '0') (zeroPtr + 1) count

/-- The numeral part of `operator++`: the buffer and `_lastDigitIndex` after it. -/
def incrementDigits (T : UnsignedType) (digits : List Char) (lastPtr : Nat) : List Char × Nat :=
  let last := digits.getD lastPtr (Char.ofNat 0)
  let digits := digits.set lastPtr (charSucc last)
  if last = '9' then
    let zeroPtr := nineRunStart digits lastPtr
    if 0 < zeroPtr then
      let digits := digits.set (zeroPtr - 1) (charSucc (digits.getD (zeroPtr - 1) (Char.ofNat 0)))
      (zeroOut digits zeroPtr (lastPtr - zeroPtr), lastPtr)
    else if lastPtr < kBufSize T - 2 then
      -- a new power of ten: the numeral starts with a one and grows by a digit
      (zeroOut (digits.set 0 '1') 1 lastPtr, lastPtr + 1)
    else (zeroOut digits 0 lastPtr, lastPtr)
  else (digits, lastPtr)

/-- `operator++()`. -/
def preIncrement (c : DecimalCounter T) : DecimalCounter T :=
  let counter := (c.counter + 1) % 2 ^ T.digits
  if counter = 0 then init T
  else ⟨(incrementDigits T c.digits c.lastDigitIndex).1,
    (incrementDigits T c.digits c.lastDigitIndex).2, counter⟩

/-- `operator++(int)`: the counter after the increment, and the copy taken before it, which is
what it returns. -/
def postIncrement (c : DecimalCounter T) : DecimalCounter T × DecimalCounter T :=
  (c.preIncrement, c)

/-! ### The buffer operations on numerals -/

theorem charSucc_digitChar {d : Nat} (hd : d < 9) : charSucc (Nat.digitChar d) = Nat.digitChar (d + 1) := by
  have hcases : d = 0 ∨ d = 1 ∨ d = 2 ∨ d = 3 ∨ d = 4 ∨ d = 5 ∨ d = 6 ∨ d = 7 ∨ d = 8 := by omega
  rcases hcases with rfl | rfl | rfl | rfl | rfl | rfl | rfl | rfl | rfl <;> decide

theorem digitChar_ne_nine {d : Nat} (hd : d < 9) : Nat.digitChar d ≠ '9' := by
  have hcases : d = 0 ∨ d = 1 ∨ d = 2 ∨ d = 3 ∨ d = 4 ∨ d = 5 ∨ d = 6 ∨ d = 7 ∨ d = 8 := by omega
  rcases hcases with rfl | rfl | rfl | rfl | rfl | rfl | rfl | rfl | rfl <;> decide

theorem getD_length_append (pre rest : List Char) (c d : Char) : (pre ++ c :: rest).getD pre.length d = c := by
  simp

theorem set_length_append (pre rest : List Char) (c x : Char) :
    (pre ++ c :: rest).set pre.length x = pre ++ x :: rest := by
  simp

/-- Scanning back from the end of a run of nines stops just past the digit before it. -/
theorem nineRunStart_append_nines (pre : List Char) {c : Char} (hc : c ≠ '9') :
    ∀ (j : Nat) (rest : List Char),
      nineRunStart (pre ++ c :: (replicate j '9' ++ rest)) (pre.length + 1 + j) = pre.length + 1
  | 0, rest => by simp [nineRunStart, hc]
  | j + 1, rest => by
    have hshape : replicate (j + 1) '9' ++ rest = replicate j '9' ++ '9' :: rest := by
      rw [replicate_succ', append_assoc, singleton_append]
    have hnine : (pre ++ c :: (replicate j '9' ++ '9' :: rest)).getD (pre.length + 1 + j)
        (Char.ofNat 0) = '9' := by
      have hl : pre ++ c :: (replicate j '9' ++ '9' :: rest) =
          (pre ++ c :: replicate j '9') ++ '9' :: rest := by simp
      have hlen : pre.length + 1 + j = (pre ++ c :: replicate j '9').length := by simp; omega
      rw [hl, hlen, getD_length_append]
    rw [hshape, show pre.length + 1 + (j + 1) = pre.length + 1 + j + 1 by omega, nineRunStart,
      if_pos hnine, nineRunStart_append_nines pre hc j ('9' :: rest)]

/-- Over a numeral of nines the scan goes back to the start. -/
theorem nineRunStart_nines : ∀ (j : Nat) (rest : List Char), nineRunStart (replicate j '9' ++ rest) j = 0
  | 0, _ => rfl
  | j + 1, rest => by
    have hshape : replicate (j + 1) '9' ++ rest = replicate j '9' ++ '9' :: rest := by
      rw [replicate_succ', append_assoc, singleton_append]
    have hnine : (replicate j '9' ++ '9' :: rest).getD j (Char.ofNat 0) = '9' := by
      simp
    rw [hshape, nineRunStart, if_pos hnine, nineRunStart_nines j ('9' :: rest)]

/-- Zeroing out overwrites `count + 1` characters from `zeroPtr`. -/
theorem zeroOut_append : ∀ (count : Nat) (pre mid rest : List Char), mid.length = count + 1 →
    zeroOut (pre ++ mid ++ rest) pre.length count = pre ++ replicate (count + 1) '0' ++ rest
  | 0, pre, mid, rest, hmid => by
    obtain ⟨m, rfl⟩ := length_eq_one_iff.mp hmid
    simp [zeroOut]
  | count + 1, pre, mid, rest, hmid => by
    obtain ⟨m, mid', rfl⟩ := exists_cons_of_length_eq_add_one hmid
    have hset : (pre ++ m :: mid' ++ rest).set pre.length '0' = (pre ++ ['0']) ++ mid' ++ rest := by
      rw [append_assoc, cons_append, set_length_append]
      simp
    rw [zeroOut, hset, show pre.length + 1 = (pre ++ ['0']).length by simp,
      zeroOut_append count (pre ++ ['0']) mid' rest (by simpa using hmid)]
    simp [replicate_succ]

/-- The numeral of `v`, with the digits split at the last one below nine. -/
theorem toDigits_of_digits {v k d : Nat} {rest : List Nat}
    (h : Decimal.digits v = replicate k 9 ++ d :: rest) :
    Nat.toDigits 10 v = (rest.map Nat.digitChar).reverse ++ Nat.digitChar d :: replicate k '9' := by
  rw [Decimal.toDigits_eq, h]
  simp

theorem toDigits_of_nines {v k : Nat} (h : Decimal.digits v = replicate k 9) :
    Nat.toDigits 10 v = replicate k '9' := by
  rw [Decimal.toDigits_eq, h]
  simp

/-- Incrementing the numeral of `v` at the front of a buffer with room for the numeral of `v + 1`
leaves that numeral at its front, and the buffer as long as it was. -/
theorem incrementDigits_toDigits {v : Nat} (tail : List Char)
    (hroom : (Nat.toDigits 10 (v + 1)).length < (Nat.toDigits 10 v ++ tail).length)
    (hbuf : (Nat.toDigits 10 v ++ tail).length ≤ kBufSize T) :
    let r := incrementDigits T (Nat.toDigits 10 v ++ tail) ((Nat.toDigits 10 v).length - 1)
    r.2 + 1 = (Nat.toDigits 10 (v + 1)).length ∧ r.1.take (r.2 + 1) = Nat.toDigits 10 (v + 1) ∧
      r.1.length = (Nat.toDigits 10 v ++ tail).length := by
  rcases Decimal.digits_eq_nines_or v with ⟨k, hk⟩ | ⟨k, d, rest, hd, hk⟩
  · -- all nines: the numeral grows by a digit
    obtain ⟨-, hk'⟩ := Decimal.digits_succ_of_nines hk
    have hpos : 0 < k := by
      rcases Nat.eq_zero_or_pos k with rfl | hpos
      · exact absurd hk (by simpa using Decimal.digits_ne_nil v)
      · exact hpos
    have hnext : Nat.toDigits 10 (v + 1) = '1' :: replicate k '0' := by
      rw [Decimal.toDigits_eq, hk']
      simp
    rw [toDigits_of_nines hk] at hroom hbuf ⊢
    rw [hnext] at hroom ⊢
    obtain ⟨t, tail', rfl⟩ : ∃ t tail', tail = t :: tail' := by
      cases tail with
      | nil => simp at hroom
      | cons t tail' => exact ⟨t, tail', rfl⟩
    obtain ⟨j, rfl⟩ : ∃ j, k = j + 1 := ⟨k - 1, by omega⟩
    have hbufk : replicate (j + 1) '9' ++ t :: tail' = replicate j '9' ++ '9' :: t :: tail' := by
      rw [replicate_succ', append_assoc, singleton_append]
    have hlast : (replicate j '9' ++ '9' :: t :: tail').getD j (Char.ofNat 0) = '9' := by
      simp
    have hset : (replicate j '9' ++ '9' :: t :: tail').set j (charSucc '9') =
        replicate j '9' ++ charSucc '9' :: t :: tail' := by
      simp
    have hroom' : j < kBufSize T - 2 := by simp at hroom hbuf; omega
    -- the one overwrites the first nine, or the last digit when there is one
    have hgrow : (replicate j '9' ++ charSucc '9' :: t :: tail').set 0 '1' =
        ['1'] ++ (replicate j '9' ++ [charSucc '9', t]).drop 1 ++ tail' := by
      cases j <;> simp [replicate_succ]
    simp only [incrementDigits, length_replicate, Nat.add_sub_cancel, hbufk, hlast, hset, if_true,
      nineRunStart_nines, lt_irrefl, if_false, hroom', hgrow]
    have hzero := zeroOut_append j ['1'] ((replicate j '9' ++ [charSucc '9', t]).drop 1) tail'
      (by simp)
    simp only [length_singleton] at hzero
    rw [hzero]
    simp [replicate_succ]
    omega
  · -- a digit below nine: it goes up, and the nines after it become zeros
    have hk' := Decimal.digits_succ_of_lt_nine hk hd
    have hnext : Nat.toDigits 10 (v + 1) =
        (rest.map Nat.digitChar).reverse ++ Nat.digitChar (d + 1) :: replicate k '0' := by
      rw [Decimal.toDigits_eq, hk']
      simp
    have hsucc := charSucc_digitChar hd
    rw [toDigits_of_digits hk, hnext]
    generalize (rest.map Nat.digitChar).reverse = pre
    cases k with
    | zero =>
      have hshape : pre ++ Nat.digitChar d :: replicate 0 '9' ++ tail = pre ++ Nat.digitChar d :: tail := by
        simp
      have hlastPtr : (pre ++ Nat.digitChar d :: replicate 0 '9').length - 1 = pre.length := by simp
      rw [hshape, hlastPtr]
      simp only [incrementDigits, getD_length_append, digitChar_ne_nine hd, if_false,
        set_length_append, hsucc]
      simp [take_append]
    | succ j =>
      have hshape : pre ++ Nat.digitChar d :: replicate (j + 1) '9' ++ tail =
          pre ++ Nat.digitChar d :: (replicate j '9' ++ '9' :: tail) := by
        simp [replicate_succ']
      have hlastPtr : (pre ++ Nat.digitChar d :: replicate (j + 1) '9').length - 1 =
          (pre ++ Nat.digitChar d :: replicate j '9').length := by
        simp
      have hsplit : pre ++ Nat.digitChar d :: (replicate j '9' ++ '9' :: tail) =
          (pre ++ Nat.digitChar d :: replicate j '9') ++ '9' :: tail := by simp
      have hsplit' : pre ++ Nat.digitChar d :: (replicate j '9' ++ charSucc '9' :: tail) =
          (pre ++ Nat.digitChar d :: replicate j '9') ++ charSucc '9' :: tail := by simp
      have hlen : (pre ++ Nat.digitChar d :: replicate j '9').length = pre.length + 1 + j := by
        simp
        omega
      have hscan := nineRunStart_append_nines pre (digitChar_ne_nine hd) j (charSucc '9' :: tail)
      have hraise : (pre ++ Nat.digitChar d :: (replicate j '9' ++ charSucc '9' :: tail)).set
          pre.length (Nat.digitChar (d + 1)) =
          (pre ++ [Nat.digitChar (d + 1)]) ++ (replicate j '9' ++ [charSucc '9']) ++ tail := by
        rw [set_length_append]
        simp
      have hzero := zeroOut_append j (pre ++ [Nat.digitChar (d + 1)]) (replicate j '9' ++ [charSucc '9'])
        tail (by simp)
      rw [hshape, hlastPtr, hsplit]
      simp only [incrementDigits, getD_length_append, if_true, set_length_append]
      rw [← hsplit', hlen, hscan]
      simp only [Nat.add_one_sub_one, Nat.zero_lt_succ, if_true, getD_length_append, hsucc, hraise,
        show pre.length + 1 + j - (pre.length + 1) = j by omega]
      rw [show pre.length + 1 = (pre ++ [Nat.digitChar (d + 1)]).length by simp, hzero]
      have hres : pre ++ [Nat.digitChar (d + 1)] ++ replicate (j + 1) '0' ++ tail =
          (pre ++ Nat.digitChar (d + 1) :: replicate (j + 1) '0') ++ tail := by simp
      have hidx : (pre ++ [Nat.digitChar (d + 1)]).length + j + 1 =
          (pre ++ Nat.digitChar (d + 1) :: replicate (j + 1) '0').length := by
        simp
        omega
      rw [hres, hidx, take_left' rfl]
      refine ⟨rfl, rfl, ?_⟩
      simp
      omega

/-! ### The counter and its numeral -/

/-- A counter whose buffer holds, from its start, the numeral of its value, with `_lastDigitIndex`
at the last digit. -/
structure Valid (c : DecimalCounter T) : Prop where
  length : c.digits.length = kBufSize T
  counter_lt : c.counter < 2 ^ T.digits
  lastDigitIndex : c.lastDigitIndex + 1 = (Nat.toDigits 10 c.counter).length
  numeral : c.toStringData = Nat.toDigits 10 c.counter

/-- A value has a numeral of at most `digits10 + 1` digits. -/
theorem length_toDigits_le {v : Nat} (hv : v < 2 ^ T.digits) :
    (Nat.toDigits 10 v).length ≤ T.digits10 + 1 := by
  rw [Decimal.toDigits_eq, length_reverse, length_map]
  exact Decimal.length_digits_le (by omega) (hv.trans (UnsignedType.two_pow_digits_lt T))

theorem init_valid (T : UnsignedType) : Valid (init T) where
  length := by simp [init, kBufSize]
  counter_lt := Nat.two_pow_pos _
  lastDigitIndex := by simp [init]
  numeral := by simp [init, toStringData]

/-- One increment keeps the numeral that of the counter, which goes up by one modulo `2 ^ digits`. -/
theorem Valid.preIncrement {c : DecimalCounter T} (h : Valid c) :
    Valid c.preIncrement ∧ c.preIncrement.counter = (c.counter + 1) % 2 ^ T.digits := by
  unfold DecimalCounter.preIncrement
  dsimp only
  split_ifs with hwrap
  · exact ⟨init_valid T, hwrap.symm⟩
  · -- no wrap: the next value is below `2 ^ digits`, so its numeral fits the buffer
    have hlt : c.counter + 1 < 2 ^ T.digits := by
      have := h.counter_lt
      rcases Nat.lt_or_ge (c.counter + 1) (2 ^ T.digits) with hlt | hge
      · exact hlt
      · exact absurd (by rw [show c.counter + 1 = 2 ^ T.digits by omega, Nat.mod_self]) hwrap
    have hmod : (c.counter + 1) % 2 ^ T.digits = c.counter + 1 := Nat.mod_eq_of_lt hlt
    have hbuf : c.digits = Nat.toDigits 10 c.counter ++ c.digits.drop (c.lastDigitIndex + 1) := by
      rw [← h.numeral, toStringData, take_append_drop]
    have hroom : (Nat.toDigits 10 (c.counter + 1)).length < c.digits.length := by
      have := length_toDigits_le (T := T) hlt
      rw [h.length, kBufSize]
      omega
    have hlast : c.lastDigitIndex = (Nat.toDigits 10 c.counter).length - 1 := by
      have := h.lastDigitIndex
      omega
    obtain ⟨hidx, hnum, hlen⟩ := incrementDigits_toDigits (T := T) (c.digits.drop (c.lastDigitIndex + 1))
      (by rw [← hbuf]; exact hroom) (by rw [← hbuf, h.length])
    rw [← hbuf, ← hlast] at hidx hnum hlen
    refine ⟨⟨?_, ?_, ?_, ?_⟩, rfl⟩
    · rw [hlen, h.length]
    · simpa [hmod] using hlt
    · simpa [hmod] using hidx
    · simpa [toStringData, hmod] using hnum

/-- After `n` increments of a default-constructed counter, it holds `n` modulo `2 ^ digits` and
its numeral. -/
theorem valid_iterate_preIncrement (T : UnsignedType) (n : Nat) :
    Valid (preIncrement^[n] (init T)) ∧ (preIncrement^[n] (init T)).counter = n % 2 ^ T.digits := by
  induction n with
  | zero => exact ⟨init_valid T, (Nat.zero_mod _).symm⟩
  | succ n ih =>
    obtain ⟨hvalid, hcounter⟩ := ih.1.preIncrement
    rw [Function.iterate_succ_apply']
    refine ⟨hvalid, ?_⟩
    rw [hcounter, ih.2, Nat.mod_add_mod]

example : (preIncrement^[10] (init .uint8_t)).toStringData = ['1', '0'] := by decide

/-- The numeral of a counter after `n` increments, pre or post, is that of `n` modulo
`2 ^ digits`, and the last digit stays within the first `digits10 + 1` characters of the buffer. -/
theorem decimalCounter_numeral_after_increments (T : UnsignedType) (n : Nat) :
    let c := preIncrement^[n] (init T)
    (fun c => (postIncrement c).1)^[n] (init T) = c ∧ c.counter = n % 2 ^ T.digits ∧
      c.toStringData = Nat.toDigits 10 (n % 2 ^ T.digits) ∧ c.lastDigitIndex + 1 ≤ T.digits10 + 1 := by
  obtain ⟨hvalid, hcounter⟩ := valid_iterate_preIncrement T n
  refine ⟨rfl, hcounter, ?_, ?_⟩
  · rw [hvalid.numeral, hcounter]
  · rw [hvalid.lastDigitIndex]
    exact length_toDigits_le hvalid.counter_lt

end DecimalCounter

end Mongo
