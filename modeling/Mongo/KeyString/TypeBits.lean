import Mongo.KeyString.Skip

/-! `TypeBits` and the serialized `KeyString::Value` (`db/storage/key_string.{h,cpp}`). The type
bits of a key are appended one at a time and packed from the low bit of each data byte up; the
buffer they are stored in holds one of four encodings, chosen by `getSize()`: a zero byte for
all zeros, the lone data byte when its high bit is clear, a size byte `0x80 | size` and the data
for up to 127 data bytes, and `0x80`, a four-byte little-endian size and the data past that. A
serialized `Value` is its key size, its key and its type bits, and `deserialize` frames
consecutive values by reading the type bits back with `TypeBits::fromBuffer`. -/

namespace Mongo

namespace KeyString

/-- How writing or reading type bits ends other than by returning: a `BufReader` read past the
end, the 64MB limit of `BufBuilder::grow` (`msgasserted 13548`), the `keyStringAssert`s
`50910` (an overlong size) and `50615` (a bit past the data bytes), `MONGO_UNREACHABLE` and a
failed `invariant`. -/
inductive TypeBitsError
  | bufferOverflow
  | bufBuilderLimit
  | invalidOverlongEncoding
  | invalidSizeBytes
  | unreachable
  | invariantFailure
  deriving DecidableEq, Repr

/-- `BufferMaxSize`, past which `BufBuilder::grow` fails. -/
def bufferMaxSize : Nat := 64 * 1024 * 1024

/-- The four bytes of `LittleEndian<uint32_t>`. -/
def littleEndian32 (n : Nat) : List UInt8 :=
  [n.toUInt8, (n / 2 ^ 8).toUInt8, (n / 2 ^ 16).toUInt8, (n / 2 ^ 24).toUInt8]

/-- `read<LittleEndian<uint32_t>>()`. -/
def readLittleEndian32 : List UInt8 → Except TypeBitsError (Nat × List UInt8)
  | b0 :: b1 :: b2 :: b3 :: rest =>
    .ok (b0.toNat + 2 ^ 8 * b1.toNat + 2 ^ 16 * b2.toNat + 2 ^ 24 * b3.toNat, rest)
  | _ => .error .bufferOverflow

/-- `reader->skip(n)`: the `n` bytes skipped and the bytes after them. -/
def skipBytes (n : Nat) (reader : List UInt8) : Except TypeBitsError (List UInt8 × List UInt8) :=
  if n ≤ reader.length then .ok (reader.take n, reader.drop n) else .error .bufferOverflow

/-- `TypeBits`: the position of the next bit, whether no bit appended is one, the data bytes
after the `kPrefixBytes` of `_buf`, and the size the size bytes in front of them were last
written with by `setRawSize`. -/
structure TypeBits where
  version : Version
  curBit : Nat
  isAllZeros : Bool
  data : List UInt8
  rawSize : Nat
  deriving DecidableEq, Repr

namespace TypeBits

def kMaxBytesForShortEncoding : Nat := 127
def kPrefixBytes : Nat := 5
def kStoredDecimalExponentBits : Nat := 6

def kString : UInt8 := 0x0
def kSymbol : UInt8 := 0x1
def kInt : UInt8 := 0x0
def kLong : UInt8 := 0x1
def kDouble : UInt8 := 0x2
def kDecimal : UInt8 := 0x3
def kNegativeDoubleZero : UInt8 := 0x3
def kV0NegativeDoubleZero : UInt8 := 0x3
def kV1NegativeDoubleZero : UInt8 := 0x18
def kDecimalZero0xxx : UInt8 := 0x1a
def kDecimalZero5xxx : UInt8 := 0x1f

/-- `TypeBits(version)`, through `reset()`. The size bytes are not written until the first
`setRawSize`, and are read only after it. -/
def new (version : Version) : TypeBits := ⟨version, 0, true, [], 0⟩

variable (tb : TypeBits)

/-- `reset()`: `setlen(kPrefixBytes)` drops the data bytes and leaves the size bytes. -/
def reset : TypeBits := { tb with curBit := 0, isAllZeros := true, data := [] }

/-- `setRawSize(size)`: the data bytes grow to `size`, and the size bytes are written for it.
The bytes it grows by are not initialized; both callers write them before they are read. -/
def setRawSize (size : Nat) : Except TypeBitsError TypeBits :=
  if tb.data.length < size ∧ bufferMaxSize < kPrefixBytes + size then .error .bufBuilderLimit
  else .ok { tb with data := tb.data ++ List.replicate (size - tb.data.length) 0, rawSize := size }

/-- `isLongEncoding()`. -/
def isLongEncoding : Bool := !tb.isAllZeros && decide (kMaxBytesForShortEncoding < tb.data.length)

/-- `getSize()`. -/
def getSize : Nat :=
  if tb.isAllZeros then 1
  else if kMaxBytesForShortEncoding < tb.data.length then tb.data.length + kPrefixBytes
  else if tb.data.length = 1 ∧ tb.data.headD 0 &&& 0x80 = 0 then 1
  else tb.data.length + 1

/-- The `getSize()` bytes at `getBuffer()`: the zero byte of `""` for all zeros, the lone data
byte, or the size bytes `setRawSize` wrote and the data. -/
def getBuffer : List UInt8 :=
  if tb.isAllZeros then [0]
  else if tb.getSize = 1 then tb.data.take 1
  else if tb.isLongEncoding then 0x80 :: littleEndian32 tb.rawSize ++ tb.data
  else (0x80 ||| tb.rawSize.toUInt8) :: tb.data

/-- `appendBit(oneOrZero)`: a bit at offset `0` starts a new data byte, which zeros bits 1-7;
a later bit is or-ed into the last one. -/
def appendBit (oneOrZero : UInt8) : Except TypeBitsError TypeBits := do
  let tb := if oneOrZero = 1 then { tb with isAllZeros := false } else tb
  let byte := tb.curBit / 8
  let offsetInByte := tb.curBit % 8
  if offsetInByte = 0 then
    let tb ← tb.setRawSize (byte + 1)
    pure { tb with data := tb.data.set byte oneOrZero, curBit := tb.curBit + 1 }
  else
    pure { tb with
      data := tb.data.modify byte (· ||| (oneOrZero <<< offsetInByte.toUInt8))
      curBit := tb.curBit + 1 }

/-- `appendBit` over bits in order. -/
def appendBits : TypeBits → List UInt8 → Except TypeBitsError TypeBits
  | tb, [] => .ok tb
  | tb, b :: bs => do
    let tb ← tb.appendBit b
    appendBits tb bs

end TypeBits

/-- The bits `n - 1` down to `0` of `x`, as the loops `for (bitPos = n - 1; bitPos >= 0;
bitPos--) appendBit((x >> bitPos) & 1)` append them. -/
def highBitsFirst (x : Nat) : Nat → List UInt8
  | 0 => []
  | n + 1 => (x / 2 ^ n % 2).toUInt8 :: highBitsFirst x n

open TypeBits in
/-- The bits `appendZero(zeroType)` appends: two for the integer and double zeros and the
negative zero of version 0, five for the decimal zeros and the negative zero of version 1. -/
def appendZeroBits (version : Version) (zeroType : UInt8) : Except TypeBitsError (List UInt8) :=
  if zeroType = kInt ∨ zeroType = kDouble ∨ zeroType = kLong then
    .ok [zeroType >>> 1, zeroType &&& 1]
  else if zeroType = kNegativeDoubleZero then
    if version = .V0 then .ok [kV0NegativeDoubleZero >>> 1, kV0NegativeDoubleZero &&& 1]
    -- falls through to the five-bit encodings
    else .ok (highBitsFirst kV1NegativeDoubleZero.toNat 5)
  else if kDecimalZero0xxx ≤ zeroType ∧ zeroType ≤ kDecimalZero5xxx then
    .ok (highBitsFirst zeroType.toNat 5)
  else .error .unreachable

/-- The append operations of `TypeBits` that `KeyString::Builder` calls. -/
inductive TypeBitsOp
  | appendString
  | appendSymbol
  | appendNumberDouble
  | appendNumberInt
  | appendNumberLong
  | appendNumberDecimal
  | appendZero (zeroType : UInt8)
  | appendDecimalZero (whichZero : Nat)
  | appendDecimalExponent (storedExponentBits : UInt8)
  deriving DecidableEq, Repr

open TypeBits in
/-- The bits an append operation appends, in order; each operation aborts, if at all, before its
first bit. -/
def TypeBitsOp.bits (version : Version) : TypeBitsOp → Except TypeBitsError (List UInt8)
  | .appendString => .ok [kString]
  | .appendSymbol => .ok [kSymbol]
  | .appendNumberDouble => .ok [kDouble >>> 1, kDouble &&& 1]
  | .appendNumberInt => .ok [kInt >>> 1, kInt &&& 1]
  | .appendNumberLong => .ok [kLong >>> 1, kLong &&& 1]
  | .appendNumberDecimal => .ok [kDecimal >>> 1, kDecimal &&& 1]
  | .appendZero zeroType => appendZeroBits version zeroType
  | .appendDecimalZero whichZero =>
    if whichZero / 2 ^ 12 ≤ (kDecimalZero5xxx - kDecimalZero0xxx).toNat then do
      let zeroBits ← appendZeroBits version ((whichZero / 2 ^ 12).toUInt8 + kDecimalZero0xxx)
      pure (zeroBits ++ highBitsFirst whichZero 12)
    else .error .invariantFailure
  | .appendDecimalExponent storedExponentBits =>
    if storedExponentBits.toNat < 2 ^ kStoredDecimalExponentBits then
      .ok (highBitsFirst storedExponentBits.toNat kStoredDecimalExponentBits)
    else .error .invariantFailure

namespace TypeBits

variable (tb : TypeBits)

/-- An append operation. -/
def append (op : TypeBitsOp) : Except TypeBitsError TypeBits := do
  let bits ← op.bits tb.version
  tb.appendBits bits

/-- Append operations in order. -/
def appendOps : TypeBits → List TypeBitsOp → Except TypeBitsError TypeBits
  | tb, [] => .ok tb
  | tb, op :: ops => do
    let tb ← tb.append op
    appendOps tb ops

/-- `readSizeFromBuffer`: the number of data bytes, and the bytes from the first data byte on.
The lone data byte of the single-byte encoding is its own size byte and is not skipped. -/
def readSizeFromBuffer : List UInt8 → Except TypeBitsError (Nat × List UInt8)
  | [] => .error .bufferOverflow
  | firstByte :: rest =>
    if 0 < firstByte ∧ firstByte < 0x80 then .ok (1, firstByte :: rest)
    else if 0x80 < firstByte then .ok ((firstByte &&& 0x7f).toNat, rest)
    else if firstByte = 0x80 then do
      let (s, rest) ← readLittleEndian32 rest
      if s ≤ kMaxBytesForShortEncoding then throw .invalidOverlongEncoding
      pure (s, rest)
    else .ok (0, rest)

/-- `resetFromBuffer(reader)`: no bytes left is all zeros. -/
def resetFromBuffer (reader : List UInt8) : Except TypeBitsError (TypeBits × List UInt8) := do
  let tb := tb.reset
  if reader.length = 0 then return (tb, reader)
  let (size, reader) ← readSizeFromBuffer reader
  let tb := if 0 < size then { tb with isAllZeros := false } else tb
  let tb ← tb.setRawSize size
  let (bytes, reader) ← skipBytes size reader
  -- `memcpy(getDataBuffer(), reader->skip(size), size)`
  pure ({ tb with data := bytes ++ tb.data.drop size }, reader)

/-- `TypeBits::fromBuffer(version, reader)`. -/
def fromBuffer (version : Version) (reader : List UInt8) :
    Except TypeBitsError (TypeBits × List UInt8) :=
  (new version).resetFromBuffer reader

/-- `Reader::readBit` at the reader's `_curBit`: the bit and the next position. All zeros reads
a zero and stays. -/
def readBit (curBit : Nat) : Except TypeBitsError (UInt8 × Nat) :=
  if tb.isAllZeros then .ok (0, curBit)
  else
    let byte := curBit / 8
    let offsetInByte := curBit % 8
    if byte < tb.data.length then
      .ok (if tb.data.getD byte 0 &&& ((1 : UInt8) <<< offsetInByte.toUInt8) ≠ 0 then 1 else 0,
        curBit + 1)
    else .error .invalidSizeBytes

/-- The first `n` bits a `Reader` returns, from position `curBit`. -/
def readBits : Nat → Nat → Except TypeBitsError (List UInt8)
  | 0, _ => .ok []
  | n + 1, curBit => do
    let (b, curBit) ← tb.readBit curBit
    let bs ← readBits n curBit
    pure (b :: bs)

end TypeBits

/-- `KeyString::Value`: the version, the size of the key, and the key followed by its type bits. -/
structure Value where
  version : Version
  ksSize : Int
  buffer : List UInt8
  deriving DecidableEq, Repr

namespace Value

/-- `serialize`: the key size as a little-endian `int32_t`, then the key and its type bits. -/
def serialize (v : Value) : List UInt8 := littleEndian32 (v.ksSize % 2 ^ 32).toNat ++ v.buffer

/-- `deserialize(buf, version)`: the key is copied, and the type bits read back and written
again, a zero byte for all zeros. The constructor's `invariant`s bound the key size. -/
def deserialize (buf : List UInt8) (version : Version) : Except TypeBitsError (Value × List UInt8) := do
  let (raw, buf) ← readLittleEndian32 buf
  let sizeOfKeystring : Int := if raw < 2 ^ 31 then raw else raw - 2 ^ 32
  -- `skip` takes the size as an unsigned length
  let (keystring, buf) ← skipBytes (sizeOfKeystring % 2 ^ 32).toNat buf
  let (typeBits, buf) ← TypeBits.fromBuffer version buf
  let newBuf := keystring ++ if typeBits.isAllZeros then [0] else typeBits.getBuffer
  if sizeOfKeystring < 0 ∨ newBuf.length < sizeOfKeystring then throw .invariantFailure
  pure (⟨version, sizeOfKeystring, newBuf⟩, buf)

/-- `deserialize` called `n` times over consecutive values, as the sorter reads them. -/
def deserializeN (version : Version) : Nat → List UInt8 → Except TypeBitsError (List Value × List UInt8)
  | 0, buf => .ok ([], buf)
  | n + 1, buf => do
    let (v, buf) ← deserialize buf version
    let (vs, buf) ← deserializeN version n buf
    pure (v :: vs, buf)

/-- `Builder::getValueCopy()` and `release()`, given the key bytes the builder wrote: the key,
then its type bits, a zero byte for all zeros. -/
def ofBuilder (version : Version) (keyString : List UInt8) (typeBits : TypeBits) : Value :=
  ⟨version, keyString.length,
    keyString ++ if typeBits.isAllZeros then [0] else typeBits.getBuffer⟩

end Value

/-! ### Bits packed into bytes -/

/-- Bit `i` of bytes packed from the low bit of each byte up; zero past the last byte. -/
def bitAt (data : List UInt8) (i : Nat) : Bool := (data.getD (i / 8) 0).toNat.testBit (i % 8)

theorem bitAt_append_byte (data : List UInt8) (x : UInt8) (i : Nat) :
    bitAt (data ++ [x]) i =
      if i / 8 < data.length then bitAt data i
      else decide (i / 8 = data.length) && x.toNat.testBit (i % 8) := by
  unfold bitAt
  split_ifs with hlt
  · rw [List.getD_append _ _ _ _ hlt]
  · by_cases heq : i / 8 = data.length
    · simp [heq]
    · have hgt : (data ++ [x]).length ≤ i / 8 := by simp; omega
      rw [List.getD_eq_default _ _ hgt]
      simp [heq]

theorem bitAt_modify (data : List UInt8) (j : Nat) (f : UInt8 → UInt8) (i : Nat) :
    bitAt (data.modify j f) i =
      if i / 8 = j ∧ j < data.length then (f (data.getD j 0)).toNat.testBit (i % 8)
      else bitAt data i := by
  unfold bitAt
  split_ifs with h
  · obtain ⟨rfl, hj⟩ := h
    simp [List.getD_eq_getElem?_getD, List.getElem?_eq_getElem hj]
  · simp only [List.getD_eq_getElem?_getD, List.getElem?_modify]
    by_cases hj : i / 8 = j
    · have hlen : data.length ≤ j := by omega
      simp [hj, List.getElem?_eq_none hlen]
    · simp [Ne.symm hj]

/-- A bit written as a byte of its own: only bit `0` can be set. -/
theorem testBit_bit {b : UInt8} (hb : b = 0 ∨ b = 1) (j : Nat) :
    b.toNat.testBit j = (decide (b = 1) && decide (j = 0)) := by
  rcases hb with rfl | rfl
  · simp
  · cases j <;> simp [Nat.testBit_succ]

/-- A bit or-ed into a byte at `offset` sets that bit of it and no other. -/
theorem testBit_or_shiftLeft (d : UInt8) {b : UInt8} (hb : b = 0 ∨ b = 1) {offset : Nat}
    (hoffset : offset < 8) (j : Nat) :
    (d ||| (b <<< offset.toUInt8)).toNat.testBit j =
      (d.toNat.testBit j || (decide (b = 1) && decide (j = offset))) := by
  rcases hb with rfl | rfl
  · simp
  · rw [UInt8.toNat_or, Nat.testBit_or, UInt8.toNat_shiftLeft]
    have hshift : (1 : UInt8).toNat <<< ((offset.toUInt8).toNat % 8) % 2 ^ 8 = 2 ^ offset := by
      have h8 : (offset.toUInt8).toNat = offset := by simp; omega
      rw [h8, Nat.mod_eq_of_lt hoffset]
      simp only [UInt8.toNat_one, Nat.shiftLeft_eq, one_mul]
      exact Nat.mod_eq_of_lt (Nat.pow_lt_pow_right (by norm_num) hoffset)
    rw [hshift, Nat.testBit_two_pow]
    simp [eq_comm]

/-- The test `Reader::readBit` makes on a data byte. -/
theorem and_shiftLeft_ne_zero (d : UInt8) {offset : Nat} (hoffset : offset < 8) :
    (d &&& ((1 : UInt8) <<< offset.toUInt8) ≠ 0) ↔ d.toNat.testBit offset = true := by
  have hshift : ((1 : UInt8) <<< offset.toUInt8).toNat = 2 ^ offset := by
    rw [UInt8.toNat_shiftLeft]
    have h8 : (offset.toUInt8).toNat = offset := by simp; omega
    rw [h8, Nat.mod_eq_of_lt hoffset]
    simp only [UInt8.toNat_one, Nat.shiftLeft_eq, one_mul]
    exact Nat.mod_eq_of_lt (Nat.pow_lt_pow_right (by norm_num) hoffset)
  rw [ne_eq, ← UInt8.toNat_inj, UInt8.toNat_and, hshift, Nat.and_two_pow]
  cases d.toNat.testBit offset <;> simp

theorem getD_append_singleton (bs : List UInt8) (b : UInt8) (i : Nat) :
    (bs ++ [b]).getD i 0 = if i < bs.length then bs.getD i 0 else if i = bs.length then b else 0 := by
  split_ifs with hlt heq
  · exact List.getD_append _ _ _ _ hlt
  · subst heq
    simp
  · rw [List.getD_eq_default _ _ (by simp; omega)]

namespace TypeBits

/-- `tb` holds the bits `bs`, each `0` or `1`: bit `i` of its data bytes is `bs[i]`, zero past
the last one, the size bytes are written for the data, `isAllZeros` says that no bit is one, and
the buffer is within the limit of `BufBuilder`. -/
structure Packs (tb : TypeBits) (bs : List UInt8) : Prop where
  bits : ∀ b ∈ bs, b = 0 ∨ b = 1
  curBit : tb.curBit = bs.length
  length : tb.data.length = (bs.length + 7) / 8
  bitAt : ∀ i, bitAt tb.data i = decide (bs.getD i 0 = 1)
  rawSize : tb.data ≠ [] → tb.rawSize = tb.data.length
  isAllZeros : tb.isAllZeros = !bs.contains 1
  fits : kPrefixBytes + tb.data.length ≤ bufferMaxSize

theorem packs_new (version : Version) : Packs (new version) [] where
  bits := by simp
  curBit := rfl
  length := rfl
  bitAt := fun i => by simp [KeyString.bitAt, new]
  rawSize := fun h => absurd rfl h
  isAllZeros := rfl
  fits := by simp [new, kPrefixBytes, bufferMaxSize]

variable {tb : TypeBits}

/-- What `appendBit` does: a bit at offset `0` grows the data by a byte holding it, any other
is or-ed into the last byte. -/
theorem appendBit_eq_ok {b : UInt8} {tb' : TypeBits} (h : tb.appendBit b = .ok tb') :
    tb'.version = tb.version ∧ tb'.curBit = tb.curBit + 1 ∧
    tb'.isAllZeros = (if b = 1 then false else tb.isAllZeros) ∧
    ((tb.curBit % 8 = 0 ∧ tb.curBit / 8 = tb.data.length →
        kPrefixBytes + (tb.data.length + 1) ≤ bufferMaxSize ∧ tb'.data = tb.data ++ [b] ∧
          tb'.rawSize = tb.data.length + 1) ∧
      (tb.curBit % 8 ≠ 0 → tb'.rawSize = tb.rawSize ∧
        tb'.data = tb.data.modify (tb.curBit / 8) (· ||| (b <<< (tb.curBit % 8).toUInt8)))) := by
  by_cases hoff : tb.curBit % 8 = 0
  · -- a new data byte: `setRawSize` grows the data by one byte when the bit is past them
    by_cases hb : b = 1 <;>
    simp only [appendBit, hb, hoff, if_true, if_false, setRawSize, bind, Except.bind] at h <;>
    split_ifs at h with hgrow <;> cases h
    all_goals
      refine ⟨rfl, rfl, by simp [hb], fun ⟨_, hlen⟩ => ⟨by omega, ?_, by simp [hlen]⟩,
        fun h => absurd hoff h⟩
      simp [hlen, hb]
  · by_cases hb : b = 1 <;>
    simp only [appendBit, hb, hoff, if_true, if_false, bind, Except.bind] at h <;> cases h
    all_goals exact ⟨rfl, rfl, by simp [hb], fun h => absurd h.1 hoff, fun _ => ⟨rfl, by simp [hb]⟩⟩

/-- Appending a bit keeps the packing: a bit at a multiple of eight takes a new data byte, and
any other goes into the last one, where it was zero. -/
theorem Packs.appendBit {bs : List UInt8} (h : Packs tb bs) {b : UInt8} (hb : b = 0 ∨ b = 1)
    {tb' : TypeBits} (happ : tb.appendBit b = .ok tb') : Packs tb' (bs ++ [b]) := by
  obtain ⟨-, hcur, hzeros, hnew, hold⟩ := appendBit_eq_ok happ
  have hlen := h.length
  have hcurBit := h.curBit
  have hbits : ∀ x ∈ bs ++ [b], x = 0 ∨ x = 1 := by
    intro x hx
    rcases List.mem_append.mp hx with hx | hx
    · exact h.bits x hx
    · rw [List.mem_singleton.mp hx]
      exact hb
  have hallZeros : tb'.isAllZeros = !(bs ++ [b]).contains 1 := by
    rw [hzeros, h.isAllZeros]
    rcases hb with rfl | rfl <;> simp
  by_cases hoff : bs.length % 8 = 0
  · -- the bit starts a new data byte
    obtain ⟨hfits, hdata, hraw⟩ := hnew ⟨by omega, by omega⟩
    refine ⟨hbits, by simp [hcur, hcurBit], by simp [hdata]; omega, fun i => ?_,
      fun _ => by simp [hraw, hdata], hallZeros, by simp [hdata]; omega⟩
    rw [hdata, bitAt_append_byte, getD_append_singleton]
    by_cases hi : i < bs.length
    · rw [if_pos (by omega), if_pos hi, h.bitAt i]
    · rw [if_neg (by omega), if_neg hi, testBit_bit hb]
      by_cases hin : i = bs.length
      · have hbyte : bs.length / 8 = tb.data.length := by omega
        simp [hin, hbyte, hoff]
      · have : ¬ (i / 8 = tb.data.length ∧ i % 8 = 0) := by omega
        simp only [if_neg hin]
        by_cases hb1 : b = 1 <;> simp [hb1]
        omega
  · -- the bit goes into the last data byte, at its offset
    obtain ⟨hraw, hdata⟩ := hold (by omega)
    have hbyte : tb.curBit / 8 < tb.data.length := by omega
    refine ⟨hbits, by simp [hcur, hcurBit], by simp [hdata]; omega, fun i => ?_,
      fun _ => by simp [hraw, hdata, h.rawSize (List.ne_nil_of_length_pos (by omega))],
      hallZeros, by simp [hdata]; exact h.fits⟩
    rw [hdata, bitAt_modify, getD_append_singleton]
    by_cases hin : i = bs.length
    · subst hin
      have hpast := h.bitAt bs.length
      simp only [List.getD_eq_default _ _ (Nat.le_refl _)] at hpast
      rw [if_pos ⟨by omega, hbyte⟩, testBit_or_shiftLeft _ hb (Nat.mod_lt _ (by omega)), ← hcurBit]
      simp only [KeyString.bitAt, ← hcurBit, List.getD_eq_getElem?_getD] at hpast
      simp [hpast]
    · have hstay := h.bitAt i
      by_cases hsame : i / 8 = tb.curBit / 8
      · rw [if_pos ⟨hsame, hbyte⟩, testBit_or_shiftLeft _ hb (Nat.mod_lt _ (by omega))]
        simp only [KeyString.bitAt] at hstay
        rw [← hsame, hstay]
        have hoffset : i % 8 ≠ tb.curBit % 8 := by omega
        by_cases hi : i < bs.length <;> simp [hi, hin, hoffset]
      · rw [if_neg (fun h' => hsame h'.1), hstay]
        by_cases hi : i < bs.length <;> simp [hi, hin]

theorem appendBit_version {b : UInt8} {tb' : TypeBits} (h : tb.appendBit b = .ok tb') :
    tb'.version = tb.version :=
  (appendBit_eq_ok h).1

/-- Appending bits keeps the packing, the bits following those held. -/
theorem Packs.appendBits : ∀ {tb tb' : TypeBits} {bs bits : List UInt8}, Packs tb bs →
    (∀ b ∈ bits, b = 0 ∨ b = 1) → tb.appendBits bits = .ok tb' →
    Packs tb' (bs ++ bits) ∧ tb'.version = tb.version
  | _, _, bs, [], h, _, happ => by
    cases happ
    exact ⟨by simpa using h, rfl⟩
  | tb, tb', bs, b :: bits, h, hbits, happ => by
    simp only [TypeBits.appendBits, bind, Except.bind] at happ
    cases hb : tb.appendBit b with
    | error e => rw [hb] at happ; cases happ
    | ok tb₁ =>
      rw [hb] at happ
      have h₁ := h.appendBit (hbits b List.mem_cons_self) hb
      obtain ⟨h', hv⟩ := h₁.appendBits (fun x hx => hbits x (List.mem_cons_of_mem b hx)) happ
      exact ⟨by simpa using h', hv.trans (appendBit_version hb)⟩

end TypeBits

theorem highBitsFirst_bits (x : Nat) : ∀ (n : Nat), ∀ b ∈ highBitsFirst x n, b = 0 ∨ b = 1
  | 0 => by simp [highBitsFirst]
  | n + 1 => by
    intro b hb
    rcases List.mem_cons.mp hb with rfl | hb
    · rcases Nat.mod_two_eq_zero_or_one (x / 2 ^ n) with h | h <;> simp [h]
    · exact highBitsFirst_bits x n b hb

theorem appendZeroBits_bits {version : Version} {zeroType : UInt8} {bits : List UInt8}
    (h : appendZeroBits version zeroType = .ok bits) : ∀ b ∈ bits, b = 0 ∨ b = 1 := by
  unfold appendZeroBits at h
  split_ifs at h with hnum hneg hv
  · cases h
    rcases hnum with rfl | rfl | rfl <;> simp [TypeBits.kInt, TypeBits.kDouble, TypeBits.kLong] <;>
      decide
  · cases h
    simp [TypeBits.kV0NegativeDoubleZero]
    decide
  · cases h
    exact highBitsFirst_bits _ 5
  · cases h
    exact highBitsFirst_bits _ 5

/-- Every append operation appends bits `0` and `1` only. -/
theorem TypeBitsOp.bits_bits {version : Version} {op : TypeBitsOp} {bits : List UInt8}
    (h : op.bits version = .ok bits) : ∀ b ∈ bits, b = 0 ∨ b = 1 := by
  cases op with
  | appendZero zeroType => exact appendZeroBits_bits h
  | appendDecimalZero whichZero =>
    simp only [TypeBitsOp.bits] at h
    split_ifs at h
    cases hz : appendZeroBits version ((whichZero / 2 ^ 12).toUInt8 + TypeBits.kDecimalZero0xxx) with
    | error e => rw [hz] at h; cases h
    | ok zeroBits =>
      rw [hz] at h
      cases h
      intro b hb
      rcases List.mem_append.mp hb with hb | hb
      · exact appendZeroBits_bits hz b hb
      · exact highBitsFirst_bits _ _ b hb
  | appendDecimalExponent e =>
    simp only [TypeBitsOp.bits] at h
    split_ifs at h
    cases h
    exact highBitsFirst_bits _ _
  | _ =>
    cases h
    simp [TypeBits.kString, TypeBits.kSymbol, TypeBits.kInt, TypeBits.kDouble, TypeBits.kLong,
      TypeBits.kDecimal] <;> decide

/-- The bits a sequence of append operations appends, in order. -/
def TypeBitsOp.bitsOf (version : Version) : List TypeBitsOp → Except TypeBitsError (List UInt8)
  | [] => .ok []
  | op :: ops => do
    let bits ← op.bits version
    let rest ← bitsOf version ops
    pure (bits ++ rest)

namespace TypeBits

/-- A `TypeBits` built by append operations holds the bits they append. -/
theorem Packs.appendOps : ∀ {tb tb' : TypeBits} {bs : List UInt8} {ops : List TypeBitsOp},
    Packs tb bs → tb.appendOps ops = .ok tb' →
    ∃ bits, TypeBitsOp.bitsOf tb.version ops = .ok bits ∧ Packs tb' (bs ++ bits)
  | _, _, bs, [], h, happ => by
    cases happ
    exact ⟨[], rfl, by simpa using h⟩
  | tb, tb', bs, op :: ops, h, happ => by
    simp only [TypeBits.appendOps, TypeBits.append, bind, Except.bind] at happ
    cases hop : op.bits tb.version with
    | error e => rw [hop] at happ; cases happ
    | ok bits =>
      rw [hop] at happ
      dsimp only at happ
      cases hb : tb.appendBits bits with
      | error e => rw [hb] at happ; cases happ
      | ok tb₁ =>
        rw [hb] at happ
        obtain ⟨h₁, hv⟩ := h.appendBits (TypeBitsOp.bits_bits hop) hb
        obtain ⟨rest, hrest, h'⟩ := h₁.appendOps happ
        rw [hv] at hrest
        refine ⟨bits ++ rest, ?_, by simpa using h'⟩
        simp [TypeBitsOp.bitsOf, hop, hrest, bind, Except.bind, pure, Except.pure]

/-! ### Reading the buffer back -/

theorem readLittleEndian32_littleEndian32 {n : Nat} (h : n < 2 ^ 32) (rest : List UInt8) :
    readLittleEndian32 (littleEndian32 n ++ rest) = .ok (n, rest) := by
  simp only [littleEndian32, readLittleEndian32, List.cons_append, List.nil_append,
    Nat.toUInt8_eq, UInt8.toNat_ofNat']
  congr 2
  omega

theorem skipBytes_append (bytes rest : List UInt8) :
    skipBytes bytes.length (bytes ++ rest) = .ok (bytes, rest) := by
  simp [skipBytes]

/-- The size byte of the short encoding is past `0x80`, and its low bits are the size. -/
theorem shortSizeByte {n : Nat} (h1 : 1 ≤ n) (h2 : n ≤ kMaxBytesForShortEncoding) :
    0x80 < (0x80 ||| n.toUInt8) ∧ ((0x80 ||| n.toUInt8) &&& 0x7f).toNat = n := by
  have key : ∀ m : Fin 128, 1 ≤ m.val →
      0x80 < (0x80 ||| m.val.toUInt8) ∧ ((0x80 ||| m.val.toUInt8) &&& 0x7f).toNat = m.val := by
    decide
  exact key ⟨n, by simp [kMaxBytesForShortEncoding] at h2; omega⟩ h1

/-- A byte whose high bit is clear is below `0x80`. -/
theorem lt_of_and_highBit {d : UInt8} (h : d &&& 0x80 = 0) : d < 0x80 := by
  have hbit : d.toNat.testBit 7 = false := by
    have h' := congrArg UInt8.toNat h
    rw [UInt8.toNat_and, show (0x80 : UInt8).toNat = 2 ^ 7 from rfl, Nat.and_two_pow] at h'
    cases hb : d.toNat.testBit 7
    · rfl
    · simp [hb] at h'
  rw [Nat.testBit_eq_decide_div_mod_eq] at hbit
  have hlt := d.toNat_lt
  rw [UInt8.lt_iff_toNat_lt]
  simp only [decide_eq_false_iff_not] at hbit
  show d.toNat < 128
  omega

section Encoded

variable {tb : TypeBits} (hzero : tb.isAllZeros = false) (hne : tb.data ≠ [])
  (hraw : tb.rawSize = tb.data.length) (hfits : kPrefixBytes + tb.data.length ≤ bufferMaxSize)
  (hlone : tb.data.length = 1 → tb.data.headD 0 ≠ 0)
include hzero hne hraw hfits hlone

/-- Each of the three encodings of data bytes tells `readSizeFromBuffer` how many there are. -/
theorem readSizeFromBuffer_getBuffer (rest : List UInt8) :
    readSizeFromBuffer (tb.getBuffer ++ rest) = .ok (tb.data.length, tb.data ++ rest) := by
  have hlen : 1 ≤ tb.data.length := List.length_pos_iff.mpr hne
  by_cases hlong : kMaxBytesForShortEncoding < tb.data.length
  · -- `0x80`, then the size in four little-endian bytes
    have hbuf : tb.getBuffer = 0x80 :: (littleEndian32 tb.data.length ++ tb.data) := by
      simp [getBuffer, getSize, isLongEncoding, hzero, hlong, hraw, kPrefixBytes]
    have h32 : tb.data.length < 2 ^ 32 := by
      simp [kPrefixBytes, bufferMaxSize] at hfits
      omega
    rw [hbuf, List.cons_append, List.append_assoc]
    simp [readSizeFromBuffer, readLittleEndian32_littleEndian32 h32, bind, Except.bind,
      Nat.not_le.mpr hlong, pure, Except.pure]
  · by_cases hsingle : tb.data.length = 1 ∧ tb.data.headD 0 &&& 0x80 = 0
    · -- the lone data byte, which is its own size byte
      obtain ⟨d, hd⟩ := List.length_eq_one_iff.mp hsingle.1
      have hgs : tb.getSize = 1 := by
        rw [getSize, if_neg (by simp [hzero]), if_neg hlong, if_pos hsingle]
      have hbuf : tb.getBuffer = [d] := by simp [getBuffer, hzero, hgs, hd]
      have hpos : 0 < d := by
        have := hlone hsingle.1
        simp [hd] at this
        exact UInt8.pos_iff_ne_zero.mpr this
      have hhigh : d < 0x80 := lt_of_and_highBit (by simpa [hd] using hsingle.2)
      rw [hbuf, hd]
      simp [readSizeFromBuffer, hpos, hhigh]
    · -- a size byte `0x80 | size`
      have hgs : tb.getSize = tb.data.length + 1 := by
        rw [getSize, if_neg (by simp [hzero]), if_neg hlong, if_neg hsingle]
      have hshort : tb.isLongEncoding = false := by simp [isLongEncoding, hlong]
      have hbuf : tb.getBuffer = (0x80 ||| tb.data.length.toUInt8) :: tb.data := by
        rw [getBuffer, if_neg (by simp [hzero]), if_neg (by omega), if_neg (by simp [hshort]),
          hraw]
      obtain ⟨hpast, hlow⟩ := shortSizeByte hlen (Nat.not_lt.mp hlong)
      have hnot : ¬ (0x80 ||| tb.data.length.toUInt8) < 0x80 := by
        rw [UInt8.lt_iff_toNat_lt] at hpast ⊢
        omega
      rw [hbuf]
      simp [readSizeFromBuffer, hpast, hlow, hnot]

/-- The encoding of data bytes that are not all zeros reads back as those bytes, with the size
bytes written for them. -/
theorem fromBuffer_getBuffer (version : Version) (rest : List UInt8) :
    fromBuffer version (tb.getBuffer ++ rest) =
      .ok (⟨version, 0, false, tb.data, tb.data.length⟩, rest) := by
  have hlen : 1 ≤ tb.data.length := List.length_pos_iff.mpr hne
  have hsize : ({ (new version).reset with isAllZeros := false } : TypeBits).setRawSize
      tb.data.length = .ok ⟨version, 0, false, List.replicate tb.data.length 0, tb.data.length⟩ := by
    simp [setRawSize, reset, new]
    omega
  have hnonempty : (tb.getBuffer ++ rest).length ≠ 0 := by
    have := readSizeFromBuffer_getBuffer hzero hne hraw hfits hlone rest
    intro h0
    rw [List.length_eq_zero_iff.mp h0] at this
    cases this
  simp only [fromBuffer, resetFromBuffer, hnonempty, if_false,
    readSizeFromBuffer_getBuffer hzero hne hraw hfits hlone rest, bind, Except.bind,
    if_pos (show 0 < tb.data.length from hlen), hsize, skipBytes_append]
  simp [pure, Except.pure]

end Encoded

/-- The zero byte of all zeros reads back as a new `TypeBits`. -/
theorem fromBuffer_zero (version : Version) (rest : List UInt8) :
    fromBuffer version (0 :: rest) = .ok (new version, rest) := by
  simp [fromBuffer, resetFromBuffer, readSizeFromBuffer, setRawSize, skipBytes, reset, new, bind,
    Except.bind, pure, Except.pure]

/-- `getBuffer` and `getSize` read only `isAllZeros`, the data and the size bytes. -/
theorem getBuffer_congr {tb tb' : TypeBits} (hz : tb'.isAllZeros = tb.isAllZeros)
    (hd : tb'.data = tb.data) (hr : tb'.rawSize = tb.rawSize) :
    tb'.getBuffer = tb.getBuffer ∧ tb'.getSize = tb.getSize := by
  simp [getBuffer, getSize, isLongEncoding, hz, hd, hr]

/-- A `Reader` reads only `isAllZeros` and, when some bit is one, the data. -/
theorem readBits_congr {tb tb' : TypeBits} (hz : tb'.isAllZeros = tb.isAllZeros)
    (hd : tb.isAllZeros = false → tb'.data = tb.data) :
    ∀ n curBit, tb'.readBits n curBit = tb.readBits n curBit := by
  have hbit : ∀ curBit, tb'.readBit curBit = tb.readBit curBit := by
    intro curBit
    cases h : tb.isAllZeros
    · simp [readBit, hz, h, hd h]
    · simp [readBit, hz, h]
  intro n
  induction n with
  | zero => intro _; rfl
  | succ n ih => intro curBit; simp [readBits, hbit, ih]

theorem length_getBuffer {tb : TypeBits} (hne : tb.isAllZeros = false → tb.data ≠ []) :
    tb.getBuffer.length = tb.getSize := by
  cases hz : tb.isAllZeros
  · have hlen : 1 ≤ tb.data.length := List.length_pos_iff.mpr (hne hz)
    unfold getBuffer getSize
    simp only [hz, Bool.false_eq_true, if_false]
    split_ifs <;> simp_all [isLongEncoding, littleEndian32, kPrefixBytes]
    omega
  · simp [getBuffer, getSize, hz]

/-! ### What a reader returns -/

namespace Packs

variable {tb : TypeBits} {bs : List UInt8} (h : Packs tb bs)
include h

/-- A `TypeBits` with a bit that is one has it in a data byte, which is not zero. -/
theorem exists_byte (hz : tb.isAllZeros = false) :
    ∃ i, i / 8 < tb.data.length ∧ (tb.data.getD (i / 8) 0).toNat.testBit (i % 8) = true := by
  have hone : bs.contains 1 = true := by simpa [h.isAllZeros] using hz
  obtain ⟨i, hi, hget⟩ := List.getElem_of_mem (List.contains_iff_mem.mp hone)
  have hbit := h.bitAt i
  rw [List.getD_eq_getElem _ _ hi, hget] at hbit
  refine ⟨i, ?_, by simpa [KeyString.bitAt] using hbit⟩
  by_contra hpast
  rw [KeyString.bitAt, List.getD_eq_default _ _ (Nat.le_of_not_lt hpast)] at hbit
  simp at hbit

theorem data_ne_nil (hz : tb.isAllZeros = false) : tb.data ≠ [] := by
  obtain ⟨i, hi, -⟩ := h.exists_byte hz
  exact List.ne_nil_of_length_pos (by omega)

theorem headD_ne_zero (hz : tb.isAllZeros = false) (hone : tb.data.length = 1) :
    tb.data.headD 0 ≠ 0 := by
  obtain ⟨i, hi, hbit⟩ := h.exists_byte hz
  obtain ⟨x, hx⟩ := List.length_eq_one_iff.mp hone
  have hi0 : i / 8 = 0 := by omega
  intro h0
  simp [hx, hi0] at h0 hbit
  simp [h0] at hbit

/-- With a bit that is one, the reader returns each bit and moves on. -/
theorem readBit (hz : tb.isAllZeros = false) {i : Nat} (hi : i < bs.length) :
    tb.readBit i = .ok (bs.getD i 0, i + 1) := by
  have hbyte : i / 8 < tb.data.length := by rw [h.length]; omega
  have hvalue := h.bitAt i
  have hmem : bs[i] = 0 ∨ bs[i] = 1 := h.bits _ (List.getElem_mem hi)
  simp only [KeyString.bitAt, List.getD_eq_getElem _ _ hi] at hvalue
  simp only [TypeBits.readBit, hz, Bool.false_eq_true, if_false, if_pos hbyte,
    and_shiftLeft_ne_zero _ (Nat.mod_lt i (by omega)), hvalue, List.getD_eq_getElem _ _ hi]
  rcases hmem with h0 | h1
  · simp [h0]
  · simp [h1]

theorem readBits_of_not_allZeros (hz : tb.isAllZeros = false) :
    ∀ k c, c + k ≤ bs.length → tb.readBits k c = .ok ((bs.drop c).take k)
  | 0, _, _ => by simp [TypeBits.readBits]
  | k + 1, c, hk => by
    have hc : c < bs.length := by omega
    simp only [TypeBits.readBits, h.readBit hz hc, bind, Except.bind,
      readBits_of_not_allZeros hz k (c + 1) (by omega), pure, Except.pure]
    rw [List.drop_eq_getElem_cons hc, List.take_succ_cons, List.getD_eq_getElem _ _ hc]

theorem readBits_eq : tb.readBits bs.length 0 = .ok bs := by
  cases hz : tb.isAllZeros
  · simpa using h.readBits_of_not_allZeros hz bs.length 0 (by simp)
  · -- all zeros: every bit is zero, and the reader returns zeros without moving
    have hzeros : bs = List.replicate bs.length 0 := by
      rw [List.eq_replicate_iff]
      refine ⟨rfl, fun b hb => ?_⟩
      have hnot : bs.contains 1 = false := by simpa [h.isAllZeros] using hz
      rcases h.bits b hb with hb0 | rfl
      · exact hb0
      · exact absurd hb (by simpa using hnot)
    have hread : ∀ k c, tb.readBits k c = .ok (List.replicate k 0) := by
      intro k
      induction k with
      | zero => intro _; rfl
      | succ k ih => intro c; simp [TypeBits.readBits, TypeBits.readBit, hz, ih, bind,
          Except.bind, pure, Except.pure, List.replicate_succ]
    rw [hread]
    exact congrArg Except.ok hzeros.symm

end Packs

/-! ### The round trip -/

theorem getBuffer_of_isAllZeros {tb : TypeBits} (hz : tb.isAllZeros = true) : tb.getBuffer = [0] := by
  simp [getBuffer, hz]

/-- `fromBuffer` reads the buffer of a `TypeBits` that packs some bits back to one with the same
buffer, size and reader, whichever of the four encodings the buffer holds. -/
theorem Packs.fromBuffer_getBuffer {tb : TypeBits} {bs : List UInt8} (h : Packs tb bs)
    (version : Version) (rest : List UInt8) :
    ∃ tb', fromBuffer version (tb.getBuffer ++ rest) = .ok (tb', rest) ∧
      tb'.getBuffer = tb.getBuffer ∧ tb'.getSize = tb.getSize ∧
      tb'.isAllZeros = tb.isAllZeros ∧ ∀ n curBit, tb'.readBits n curBit = tb.readBits n curBit := by
  cases hz : tb.isAllZeros
  · -- a one bit: the lone byte, the short or the long encoding of the data bytes
    have hne := h.data_ne_nil hz
    have hraw := h.rawSize hne
    have hsame := @getBuffer_congr tb ⟨version, 0, false, tb.data, tb.data.length⟩
      hz.symm rfl hraw.symm
    exact ⟨_, TypeBits.fromBuffer_getBuffer hz hne hraw h.fits (h.headD_ne_zero hz) version rest,
      hsame.1, hsame.2, rfl, readBits_congr hz.symm fun _ => rfl⟩
  · -- all zeros: the zero byte
    have hsame := @getBuffer_congr tb (new version) hz.symm
    refine ⟨new version, ?_, ?_, ?_, rfl, readBits_congr hz.symm (by simp [hz])⟩
    · rw [getBuffer_of_isAllZeros hz]
      exact fromBuffer_zero version rest
    · rw [getBuffer_of_isAllZeros hz]
      rfl
    · simp [getSize, hz, new]

/-- The type bits a builder appends: `fromBuffer` consumes exactly the `getSize()` bytes of
`getBuffer()` and gives back the same bytes and the same bits. -/
theorem appendOps_fromBuffer {version : Version} {ops : List TypeBitsOp} {tb : TypeBits}
    (happ : (new version).appendOps ops = .ok tb) (rest : List UInt8) :
    ∃ bits tb', TypeBitsOp.bitsOf version ops = .ok bits ∧ tb.readBits bits.length 0 = .ok bits ∧
      tb.getBuffer.length = tb.getSize ∧ fromBuffer version (tb.getBuffer ++ rest) = .ok (tb', rest) ∧
      tb'.getBuffer = tb.getBuffer ∧ tb'.getSize = tb.getSize ∧ tb'.isAllZeros = tb.isAllZeros ∧
      tb'.readBits bits.length 0 = .ok bits ∧
      ∀ n curBit, tb'.readBits n curBit = tb.readBits n curBit := by
  obtain ⟨bits, hbits, h⟩ := (packs_new version).appendOps happ
  rw [List.nil_append] at h
  obtain ⟨tb', hread, hbuf, hsize, hzeros, hreader⟩ := h.fromBuffer_getBuffer version rest
  exact ⟨bits, tb', hbits, h.readBits_eq, length_getBuffer (h.data_ne_nil ·), hread, hbuf, hsize,
    hzeros, (hreader _ _).trans h.readBits_eq, hreader⟩

end TypeBits

namespace Value

open TypeBits

/-- The values a `KeyString::Builder` gives: a key of at most `BufferMaxSize` bytes and type bits
appended from `TypeBits(version)`. -/
def FromBuilder (version : Version) (v : Value) : Prop :=
  ∃ keyString ops tb, (new version).appendOps ops = .ok tb ∧ keyString.length ≤ bufferMaxSize ∧
    v = ofBuilder version keyString tb

/-- `deserialize` reads a serialized builder value back and stops at its end. -/
theorem deserialize_serialize {version : Version} {v : Value} (hv : FromBuilder version v)
    (rest : List UInt8) : deserialize (v.serialize ++ rest) version = .ok (v, rest) := by
  obtain ⟨keyString, ops, tb, happ, hks, rfl⟩ := hv
  obtain ⟨-, tb', -, -, -, hread, hbuf, -, hzeros, -, -⟩ := appendOps_fromBuffer happ rest
  have htypeBits : ∀ t : TypeBits, (if t.isAllZeros then [0] else t.getBuffer) = t.getBuffer := by
    intro t
    split_ifs with hz
    · exact (getBuffer_of_isAllZeros hz).symm
    · rfl
  have h32 : keyString.length < 2 ^ 31 := by
    simp only [bufferMaxSize] at hks
    omega
  have hsize : ((keyString.length : Int) % 2 ^ 32).toNat = keyString.length := by omega
  simp only [serialize, ofBuilder, htypeBits, hsize]
  rw [List.append_assoc, List.append_assoc, deserialize,
    readLittleEndian32_littleEndian32 (by omega)]
  simp only [bind, Except.bind, if_pos h32, hsize, skipBytes_append, hread]
  rw [htypeBits tb', hbuf]
  simp [pure, Except.pure]

/-- The sorter reads consecutive serialized builder values back in order, and stops at the end
of the last. -/
theorem deserializeN_serialize (version : Version) :
    ∀ (vs : List Value), (∀ v ∈ vs, FromBuilder version v) → ∀ rest,
      deserializeN version vs.length ((vs.map serialize).flatten ++ rest) = .ok (vs, rest)
  | [], _, _ => rfl
  | v :: vs, hvs, rest => by
    have hv := hvs v List.mem_cons_self
    have ih := deserializeN_serialize version vs (fun w hw => hvs w (List.mem_cons_of_mem v hw))
    simp only [List.map_cons, List.flatten_cons, List.length_cons, deserializeN, List.append_assoc,
      deserialize_serialize hv, bind, Except.bind, ih, pure, Except.pure]

end Value

/-- The type bits of any sequence of append operations read back through `fromBuffer`, in each
of the four encodings; and so the values a builder gives, serialized one after another, read
back through `deserialize` in order. -/
theorem typeBits_value_roundTrip :
    (∀ (version : Version) (ops : List TypeBitsOp) (tb : TypeBits),
      (TypeBits.new version).appendOps ops = .ok tb → ∀ rest : List UInt8,
      ∃ bits tb', TypeBitsOp.bitsOf version ops = .ok bits ∧ tb.readBits bits.length 0 = .ok bits ∧
        tb.getBuffer.length = tb.getSize ∧
        TypeBits.fromBuffer version (tb.getBuffer ++ rest) = .ok (tb', rest) ∧
        tb'.getBuffer = tb.getBuffer ∧ tb'.getSize = tb.getSize ∧ tb'.isAllZeros = tb.isAllZeros ∧
        tb'.readBits bits.length 0 = .ok bits ∧
        ∀ n curBit, tb'.readBits n curBit = tb.readBits n curBit) ∧
    (∀ (version : Version) (vs : List Value), (∀ v ∈ vs, Value.FromBuilder version v) →
      ∀ rest : List UInt8,
      Value.deserializeN version vs.length ((vs.map Value.serialize).flatten ++ rest) = .ok (vs, rest)) :=
  ⟨fun _ _ _ happ rest => TypeBits.appendOps_fromBuffer happ rest, Value.deserializeN_serialize⟩

theorem typeBits_value_roundTrip_numberLong :
    Value.FromBuilder .V1 (Value.ofBuilder .V1 [0x2b] ⟨.V1, 2, false, [2], 1⟩) ∧
      Value.deserializeN .V1 1
          ((Value.ofBuilder .V1 [0x2b] ⟨.V1, 2, false, [2], 1⟩).serialize ++ [0x7f]) =
        .ok ([Value.ofBuilder .V1 [0x2b] ⟨.V1, 2, false, [2], 1⟩], [0x7f]) :=
  have hv : Value.FromBuilder .V1 (Value.ofBuilder .V1 [0x2b] ⟨.V1, 2, false, [2], 1⟩) :=
    ⟨[0x2b], [.appendNumberLong], _, by decide, by decide, rfl⟩
  ⟨hv, by simpa using typeBits_value_roundTrip.2 .V1 [_] (by simpa using hv) [0x7f]⟩

end KeyString

end Mongo
