import Mongo.KeyString.RecordId

/-! The KeyString skipper (`db/storage/key_string.cpp`): `filterKeyFromKeyString`, which steps
over one encoded value by its type byte and the markers inside it without decoding it,
`readBson` for the fields of an object, and `getKeySize`, which walks a key field by field up to
`kEnd` to find where the `RecordId` starts. Field `i` is read inverted when bit `i` of the
`Ordering` is set.

`getKeySize` also reads the byte after the last field with the ordering bit of its position,
but the builder writes `kEnd` there uninverted. When that bit is set, `kEnd` reads as `0xFB`,
which is no type byte, and the skipper reaches `MONGO_UNREACHABLE`. -/

namespace Mongo

namespace KeyString

/-- How reading a KeyString ends other than by returning: a `BufReader` read past the end, a
`keyStringAssert` on a missing terminator, `Ordering::get` beyond 32 fields, and the two
aborts, `MONGO_UNREACHABLE` and a failed `invariant`. Running out of fuel is the model's own. -/
inductive KeyStringError
  | bufferOverflow
  | missingTerminator
  | orderingOverflow
  | unreachable
  | invariantFailure
  | outOfFuel
  deriving DecidableEq, Repr

/-- `KeyString::Version`. -/
inductive Version
  | V0
  | V1
  deriving DecidableEq, Repr

end KeyString

/-- `Ordering::get(i)`: `-1` for a descending field, `1` for an ascending one. -/
def KeyOrdering.get (o : KeyOrdering) (i : Nat) : Except KeyString.KeyStringError Int :=
  if i < 32 then .ok (if ((1 : UInt32) <<< UInt32.ofNat i) &&& o.bits ≠ 0 then -1 else 1)
  else .error .orderingOverflow

namespace KeyString

/-- `kEnd`, the byte after the last field. -/
def kEnd : UInt8 := 0x4

/-- `kLess`, the discriminator byte before `kEnd` of `kExclusiveBefore`. -/
def kLess : UInt8 := 1

/-- `kGreater`, the discriminator byte before `kEnd` of `kExclusiveAfter`. -/
def kGreater : UInt8 := 254

namespace CType

def kMinKey : UInt8 := 10
def kUndefined : UInt8 := 15
def kNullish : UInt8 := 20
def kNumeric : UInt8 := 30
def kStringLike : UInt8 := 60
def kObject : UInt8 := 70
def kArray : UInt8 := 80
def kBinData : UInt8 := 90
def kOID : UInt8 := 100
def kBool : UInt8 := 110
def kDate : UInt8 := 120
def kTimestamp : UInt8 := 130
def kRegEx : UInt8 := 140
def kDBRef : UInt8 := 150
def kCode : UInt8 := 160
def kCodeWithScope : UInt8 := 170
def kMaxKey : UInt8 := 240

def kNumericNaN : UInt8 := kNumeric + 0
def kNumericNegativeLargeMagnitude : UInt8 := kNumeric + 1
def kNumericNegative8ByteInt : UInt8 := kNumeric + 2
def kNumericNegative1ByteInt : UInt8 := kNumeric + 9
def kNumericNegativeSmallMagnitude : UInt8 := kNumeric + 10
def kNumericZero : UInt8 := kNumeric + 11
def kNumericPositiveSmallMagnitude : UInt8 := kNumeric + 12
def kNumericPositive1ByteInt : UInt8 := kNumeric + 13
def kNumericPositive8ByteInt : UInt8 := kNumeric + 20
def kNumericPositiveLargeMagnitude : UInt8 := kNumeric + 21

def kBoolFalse : UInt8 := kBool + 0
def kBoolTrue : UInt8 := kBool + 1

/-- `CType::numBytesForInt(ctype)`: the bytes of the integer part of an integer ctype. -/
def numBytesForInt (ctype : UInt8) : Nat :=
  if kNumericPositive1ByteInt ≤ ctype then (ctype - kNumericPositive1ByteInt).toNat + 1
  else (kNumericNegative1ByteInt - ctype).toNat + 1

end CType

open CType

/-! ### Reading bytes -/

/-- `readType<uint8_t>(reader, inverted)`. -/
def readTypeByte (inverted : Bool) : List UInt8 → Except KeyStringError (UInt8 × List UInt8)
  | [] => .error .bufferOverflow
  | b :: rest => .ok (if inverted then ~~~b else b, rest)

/-- The big-endian value of bytes, as `endian::bigToNative` reads them. -/
def bigEndianValue (bytes : List UInt8) : Nat := bytes.foldl (fun acc b => acc * 256 + b.toNat) 0

/-- `endian::bigToNative(readType<uintN_t>(reader, inverted))` for `n` bytes. -/
def readBigEndian (inverted : Bool) (n : Nat) (reader : List UInt8) :
    Except KeyStringError (Nat × List UInt8) :=
  if n ≤ reader.length then
    .ok (bigEndianValue ((reader.take n).map fun b => if inverted then ~~~b else b), reader.drop n)
  else .error .bufferOverflow

/-- `reader->skip(n)`. -/
def skip (n : Nat) (reader : List UInt8) : Except KeyStringError (List UInt8) :=
  if n ≤ reader.length then .ok (reader.drop n) else .error .bufferOverflow

/-- `readCString` (terminator `0`) and `readInvertedCString` (terminator `0xFF`): the bytes up
to the first terminator, which `memchr` finds, and the bytes after it. -/
def readCStringBy (term : UInt8) (reader : List UInt8) :
    Except KeyStringError (List UInt8 × List UInt8) :=
  match reader.idxOf? term with
  | some i => .ok (reader.take i, reader.drop (i + 1))
  | none => .error .missingTerminator

/-- `readCStringWithNuls` (terminator `0`, escape `0xFF`) and `readInvertedCStringWithNuls`
(terminator `0xFF`, escape `0`): a terminator followed by the escape byte is a NUL of the
string, and the string ends at a terminator followed by any other byte, which a `peek` reads. -/
def readCStringWithNulsBy (term esc : UInt8) : List UInt8 →
    Except KeyStringError (List UInt8 × List UInt8)
  | [] => .error .missingTerminator
  | b :: rest =>
    if b = term then
      match rest with
      | [] => .error .bufferOverflow
      | c :: rest' =>
        if c = esc then (readCStringWithNulsBy term esc rest').map fun p => (term :: p.1, p.2)
        else .ok ([], rest)
    else (readCStringWithNulsBy term esc rest).map fun p => (b :: p.1, p.2)

/-- `readCString`. -/
def readCString (reader : List UInt8) : Except KeyStringError (List UInt8 × List UInt8) :=
  readCStringBy 0 reader

/-- `readInvertedCString`: the bytes come back flipped. -/
def readInvertedCString (reader : List UInt8) : Except KeyStringError (List UInt8 × List UInt8) :=
  (readCStringBy 0xFF reader).map fun p => (p.1.map (~~~·), p.2)

/-- `readCStringWithNuls`. -/
def readCStringWithNuls (reader : List UInt8) : Except KeyStringError (List UInt8 × List UInt8) :=
  readCStringWithNulsBy 0 0xFF reader

/-- `readInvertedCStringWithNuls`: the bytes come back flipped. -/
def readInvertedCStringWithNuls (reader : List UInt8) :
    Except KeyStringError (List UInt8 × List UInt8) :=
  (readCStringWithNulsBy 0xFF 0 reader).map fun p => (p.1.map (~~~·), p.2)

/-! ### Stepping over one value -/

/-- The `DecimalContinuationMarker`s after which 8 more bytes follow. -/
def hasContinuation (dcm : Nat) : Bool := dcm = 1 ∨ dcm = 3

/-- The large-magnitude cases of `filterKeyFromKeyString`: 8 bytes, then 8 more for a decimal
that is no double, in V1. -/
def filterLargeMagnitude (reader : List UInt8) (inverted : Bool) (version : Version) :
    Except KeyStringError (List UInt8) := do
  let (encoded, reader) ← readBigEndian inverted 8 reader
  -- backward compatibility, or infinity
  if version = .V0 ∨ encoded = 2 ^ 64 - 1 then pure reader
  else if encoded < 2 ^ 63 then
    if encoded % 2 = 1 then skip 8 reader else pure reader
  else
    -- a huge decimal: its low bits
    let (_, reader) ← readBigEndian inverted 8 reader
    pure reader

/-- The small-magnitude cases of `filterKeyFromKeyString`: 8 bytes, whose two top bits say
which range the value is in, then the continuation of a decimal. -/
def filterSmallMagnitude (reader : List UInt8) (inverted : Bool) (version : Version) :
    Except KeyStringError (List UInt8) := do
  let (encoded, reader) ← readBigEndian inverted 8 reader
  if version = .V0 then pure reader
  else match encoded / 2 ^ 62 with
    | 0 =>
      -- smaller than any double: a decimal, whose low bits follow
      let (_, reader) ← readBigEndian inverted 8 reader
      pure reader
    | 1 | 2 => if encoded % 2 = 1 then skip 8 reader else pure reader
    | 3 => if hasContinuation (encoded % 4) then skip 8 reader else pure reader
    | _ => .error .unreachable

/-- `(x << 8) | byte` in `uint64_t`, once per byte read. -/
def foldBytes (inverted : Bool) : Nat → Nat → List UInt8 → Except KeyStringError (Nat × List UInt8)
  | 0, acc, reader => .ok (acc, reader)
  | n + 1, acc, reader => do
    let (b, reader) ← readTypeByte inverted reader
    foldBytes inverted n ((acc * 256 + b.toNat) % 2 ^ 64) reader

/-- The integer cases of `filterKeyFromKeyString`: the integer part, whose low bit says whether
a fraction follows; in V0 the fraction of a double, sized from the integer part's exponent; in
V1 the bytes up to 8 in all, and the continuation of a decimal. -/
def filterInteger (ctype : UInt8) (reader : List UInt8) (inverted : Bool) (version : Version) :
    Except KeyStringError (List UInt8) := do
  let (encodedIntegerPart, reader) ← foldBytes inverted (numBytesForInt ctype) 0 reader
  let haveFractionalPart := encodedIntegerPart % 2 = 1
  let integerPart := encodedIntegerPart / 2
  if ¬ haveFractionalPart then pure reader
  else if version = .V0 then
    -- `size_t` arithmetic, which wraps for an integer part of zero
    let exponent := (64 - countLeadingZeros64 integerPart + 2 ^ 64 - 1) % 2 ^ 64
    let fractionalBits := (52 + 2 ^ 64 - exponent) % 2 ^ 64
    let fractionalBytes := ((fractionalBits + 7) % 2 ^ 64) / 8
    skip fractionalBytes reader
  else
    let fracBytes := 8 - numBytesForInt ctype
    let (encodedFraction, reader) ← foldBytes inverted fracBytes integerPart reader
    -- the 8-byte case has no room for the marker, and always continues
    let dcm := if fracBytes ≠ 0 then encodedFraction % 4 else 3
    if hasContinuation dcm then skip 8 reader else pure reader

/-- The cases of `filterKeyFromKeyString` that hold no other value: a fixed size, strings, bin
data, a regex, a DBRef, and the numbers; `none` for an object, an array or code with scope. -/
def filterScalar (ctype : UInt8) (reader : List UInt8) (inverted : Bool) (version : Version) :
    Option (Except KeyStringError (List UInt8)) :=
  if ctype ∈ [kMinKey, kMaxKey, kNullish, kUndefined, kBoolTrue, kBoolFalse, kNumericNaN,
      kNumericZero] then some (pure reader)
  else if ctype = kDate ∨ ctype = kTimestamp then some (skip 8 reader)
  else if ctype = kOID then some (skip 12 reader)
  else if ctype = kStringLike ∨ ctype = kCode then
    some ((if inverted then readInvertedCStringWithNuls reader
      else readCStringWithNuls reader).map Prod.snd)
  else if ctype = kBinData then some do
    let (size, reader) ← readTypeByte inverted reader
    -- a size of `0xff` says the size is stored in 4 bytes
    let (size, reader) ← if size = 0xff then readBigEndian inverted 4 reader
      else pure (size.toNat, reader)
    let (_, reader) ← readTypeByte inverted reader
    skip size reader
  else if ctype = kRegEx then some do
    let read := if inverted then readInvertedCString else readCString
    let (_, reader) ← read reader
    let (_, reader) ← read reader
    pure reader
  else if ctype = kDBRef then some do
    let (size, reader) ← readBigEndian inverted 4 reader
    let reader ← skip size reader
    skip 12 reader
  -- a negative number is stored as the positive one, inverted
  else if ctype = kNumericNegativeLargeMagnitude then
    some (filterLargeMagnitude reader (!inverted) version)
  else if ctype = kNumericPositiveLargeMagnitude then
    some (filterLargeMagnitude reader inverted version)
  else if ctype = kNumericNegativeSmallMagnitude then
    some (filterSmallMagnitude reader (!inverted) version)
  else if ctype = kNumericPositiveSmallMagnitude then
    some (filterSmallMagnitude reader inverted version)
  else if kNumericNegative8ByteInt ≤ ctype ∧ ctype ≤ kNumericNegative1ByteInt then
    some (filterInteger ctype reader (!inverted) version)
  else if kNumericPositive1ByteInt ≤ ctype ∧ ctype ≤ kNumericPositive8ByteInt then
    some (filterInteger ctype reader inverted version)
  else if ctype = kObject ∨ ctype = kArray ∨ ctype = kCodeWithScope then none
  else some (.error .unreachable)

mutual

/-- `readBson`: fields, each a type byte, a name and a value, up to a type byte `0`. -/
def readBson : Nat → List UInt8 → Bool → Version → Except KeyStringError (List UInt8)
  | 0, _, _, _ => .error .outOfFuel
  | fuel + 1, reader, inverted, version => do
    let (t, reader) ← readTypeByte inverted reader
    if t = 0 then pure reader
    else
      let (_, reader) ← if inverted then readInvertedCString reader else readCString reader
      let (ctype, reader) ← readTypeByte inverted reader
      let reader ← filterKeyFromKeyString fuel ctype reader inverted version
      readBson fuel reader inverted version

/-- `filterKeyFromKeyString(ctype, reader, inverted, version)`: the bytes after the value of
type `ctype`. -/
def filterKeyFromKeyString :
    Nat → UInt8 → List UInt8 → Bool → Version → Except KeyStringError (List UInt8)
  | 0, _, _, _, _ => .error .outOfFuel
  | fuel + 1, ctype, reader, inverted, version =>
    match filterScalar ctype reader inverted version with
    | some result => result
    | none =>
      if ctype = kObject then readBson fuel reader inverted version
      else if ctype = kArray then filterArray fuel reader inverted version
      else do
        -- code with scope: the code, then the scope object
        let (_, reader) ← if inverted then readInvertedCStringWithNuls reader
          else readCStringWithNuls reader
        readBson fuel reader inverted version

/-- The loop of the `kArray` case: elements, each a type byte and a value, up to a type
byte `0`. -/
def filterArray : Nat → List UInt8 → Bool → Version → Except KeyStringError (List UInt8)
  | 0, _, _, _ => .error .outOfFuel
  | fuel + 1, reader, inverted, version => do
    let (elemType, reader) ← readTypeByte inverted reader
    if elemType = 0 then pure reader
    else
      let reader ← filterKeyFromKeyString fuel elemType reader inverted version
      filterArray fuel reader inverted version

end

/-- `0xFB`, the byte `kEnd` reads as when it is read inverted, is no `CType`. -/
theorem filterScalar_not_kEnd (reader : List UInt8) (inverted : Bool) (version : Version) :
    filterScalar (~~~kEnd) reader inverted version = some (.error .unreachable) := by
  simp +decide [filterScalar]

/-! ### The size of a key -/

/-- The loop of `getKeySize` from field `i`: each field's type byte is read with the field's
ordering bit, and the loop ends at `kEnd` or when no byte is left. Its result is
`remainingBytes` as last set by the loop's test. The skipper gets fuel twice the bytes left and
two more, since a value nests at most one array per byte it holds. -/
def getKeySizeLoop (ord : KeyOrdering) (version : Version) :
    Nat → Nat → List UInt8 → Except KeyStringError Nat
  | 0, _, _ => .error .outOfFuel
  | fuel + 1, i, reader =>
    if reader.length = 0 then .ok 0
    else do
      let invert := (← ord.get i) = -1
      let (ctype, rest) ← readTypeByte invert reader
      if ctype = kEnd then pure reader.length
      else
        let rest ← filterKeyFromKeyString (2 * rest.length + 2) ctype rest invert version
        getKeySizeLoop ord version fuel (i + 1) rest

/-- `getKeySize(buffer, len, ord, typeBits)`: the size of the key through `kEnd`. The loop gets
fuel one more than the buffer's length, since each turn reads a byte. -/
def getKeySize (buffer : List UInt8) (ord : KeyOrdering) (version : Version) :
    Except KeyStringError Nat := do
  if buffer.length = 0 then throw .invariantFailure
  let remainingBytes ← getKeySizeLoop ord version (buffer.length + 1) 0 buffer
  if buffer.length ≤ remainingBytes then throw .invariantFailure
  -- `remainingBytes - 1` is an `unsigned`, which wraps when no `kEnd` was read
  pure ((buffer.length + 2 ^ 64 - (remainingBytes + 2 ^ 32 - 1) % 2 ^ 32) % 2 ^ 64)

/-- `Discriminator`. -/
inductive Discriminator
  | kInclusive
  | kExclusiveBefore
  | kExclusiveAfter
  deriving DecidableEq, Repr

/-- `appendDiscriminator`: the discriminator byte, if any, then `kEnd`, neither inverted. -/
def appendDiscriminator : Discriminator → List UInt8
  | .kInclusive => [kEnd]
  | .kExclusiveBefore => [kLess, kEnd]
  | .kExclusiveAfter => [kGreater, kEnd]

/-- `resetToKey(obj, ord, recordId)`, given the bytes `_appendBsonValue` wrote for the elements
of `obj` (the element encoder is not modelled): the elements, `kEnd`, and the `RecordId`. -/
def resetToKey (elementBytes : List UInt8) (recordId : RecordId) : Option (List UInt8) :=
  (appendRecordId recordId).map fun rid => elementBytes ++ appendDiscriminator .kInclusive ++ rid

/-! ### Fuel

The skipper's fuel never runs out: every reader consumes bytes from the front, and the fuel
given covers the nesting the bytes can hold. -/

/-- A result the source can give: a value whose `size` is at most `n`, or an error of the source
itself. -/
def Settled {β : Type} (size : β → Nat) (n : Nat) : Except KeyStringError β → Prop
  | .ok b => size b ≤ n
  | .error e => e ≠ .outOfFuel

section Settled

variable {α β : Type} {gα : α → Nat} {size : β → Nat} {m n : Nat}

theorem Settled.mono {x : Except KeyStringError β} (h : Settled size m x) (hmn : m ≤ n) :
    Settled size n x := by
  cases x with
  | error e => exact h
  | ok b => exact Nat.le_trans h hmn

/-- The rule for a `do` block: the first reader settles, and so does the rest from what it
returns. -/
theorem Settled.bind {x : Except KeyStringError α} {f : α → Except KeyStringError β}
    (hx : Settled gα m x) (hf : ∀ a, gα a ≤ m → Settled size n (f a)) :
    Settled size n (x >>= f) := by
  cases x with
  | error e => exact hx
  | ok a => exact hf a hx

/-- The rule for a `do` block that reads with one of two readers, as the inverted and the plain
one, and goes on the same way after both. -/
theorem Settled.bind_ite {c : Prop} [Decidable c] {x y : Except KeyStringError α}
    {f : α → Except KeyStringError β} (hx : Settled gα m x) (hy : Settled gα m y)
    (hf : ∀ a, gα a ≤ m → Settled size n (f a)) :
    Settled size n (if c then x >>= f else y >>= f) := by
  split
  · exact hx.bind hf
  · exact hy.bind hf

theorem Settled.map {x : Except KeyStringError α} {f : α → β}
    (hx : Settled (size ∘ f) n x) : Settled size n (x.map f) := by
  cases x with
  | error e => exact hx
  | ok a => exact hx

theorem Settled.of_le {size' : β → Nat} {x : Except KeyStringError β} (h : Settled size n x)
    (hle : ∀ b, size' b ≤ size b) : Settled size' n x := by
  cases x with
  | error e => exact h
  | ok b => exact Nat.le_trans (hle b) h

theorem Settled.ne_outOfFuel {x : Except KeyStringError β} (h : Settled size n x) :
    x ≠ .error .outOfFuel := by
  rintro rfl
  exact h rfl

end Settled

theorem settled_readTypeByte (inverted : Bool) (reader : List UInt8) :
    Settled (fun p => p.2.length + 1) reader.length (readTypeByte inverted reader) := by
  cases reader with
  | nil => simp [readTypeByte, Settled]
  | cons b rest => simp [readTypeByte, Settled]

theorem settled_readBigEndian (inverted : Bool) (k : Nat) (reader : List UInt8) :
    Settled (fun p => p.2.length) reader.length (readBigEndian inverted k reader) := by
  unfold readBigEndian
  split <;> simp [Settled]

theorem settled_skip (k : Nat) (reader : List UInt8) :
    Settled List.length reader.length (skip k reader) := by
  unfold skip
  split <;> simp [Settled]

theorem settled_readCStringBy (term : UInt8) (reader : List UInt8) :
    Settled (fun p => p.2.length + 1) reader.length (readCStringBy term reader) := by
  unfold readCStringBy
  split
  · next i hi =>
    -- the terminator's index is inside the reader
    obtain ⟨hlt, -⟩ := List.idxOf?_eq_some_iff.mp hi
    simp only [Settled, List.length_drop]
    omega
  · simp [Settled]

theorem settled_readCStringWithNulsBy (term esc : UInt8) (reader : List UInt8) :
    Settled (fun p => p.2.length + 1) reader.length (readCStringWithNulsBy term esc reader) := by
  fun_induction readCStringWithNulsBy term esc reader with
  | case1 | case2 => simp [Settled]
  | case3 rest ih =>
    refine Settled.map (Settled.mono ih ?_)
    simp only [List.length_cons]
    omega
  | case4 => simp [Settled]
  | case5 b rest _ ih =>
    refine Settled.map (Settled.mono ih ?_)
    simp

theorem settled_pure {reader : List UInt8} (h : reader.length ≤ n) :
    Settled List.length n (pure reader : Except KeyStringError (List UInt8)) := h

/-- The continuation of a number: `k` bytes more, or none. -/
theorem settled_ite_skip {c : Prop} [Decidable c] {k : Nat} {rest : List UInt8}
    (h : rest.length ≤ n) : Settled List.length n (if c then skip k rest else pure rest) := by
  split
  · exact (settled_skip k rest).mono h
  · exact settled_pure h

theorem settled_readCString (reader : List UInt8) :
    Settled (fun p => p.2.length + 1) reader.length (readCString reader) :=
  settled_readCStringBy 0 reader

theorem settled_readInvertedCString (reader : List UInt8) :
    Settled (fun p => p.2.length + 1) reader.length (readInvertedCString reader) :=
  Settled.map (settled_readCStringBy 0xFF reader)

theorem settled_readCStringWithNuls (reader : List UInt8) :
    Settled (fun p => p.2.length + 1) reader.length (readCStringWithNuls reader) :=
  settled_readCStringWithNulsBy 0 0xFF reader

theorem settled_readInvertedCStringWithNuls (reader : List UInt8) :
    Settled (fun p => p.2.length + 1) reader.length (readInvertedCStringWithNuls reader) :=
  Settled.map (settled_readCStringWithNulsBy 0xFF 0 reader)

theorem settled_foldBytes (inverted : Bool) (k acc : Nat) (reader : List UInt8) :
    Settled (fun p => p.2.length) reader.length (foldBytes inverted k acc reader) := by
  induction k generalizing acc reader with
  | zero => exact Nat.le_refl _
  | succ k ih =>
    refine Settled.bind (settled_readTypeByte inverted reader) ?_
    rintro ⟨b, rest⟩ h
    exact (ih _ rest).mono (by dsimp only at h; omega)

theorem settled_filterLargeMagnitude (reader : List UInt8) (inverted : Bool) (version : Version) :
    Settled List.length reader.length (filterLargeMagnitude reader inverted version) := by
  refine Settled.bind (settled_readBigEndian inverted 8 reader) ?_
  rintro ⟨encoded, rest⟩ h
  dsimp only at h ⊢
  split
  · exact settled_pure h
  split
  · exact settled_ite_skip h
  -- a huge decimal: its low bits
  · exact Settled.bind (settled_readBigEndian inverted 8 rest) fun p h' => Nat.le_trans h' h

theorem settled_filterSmallMagnitude (reader : List UInt8) (inverted : Bool) (version : Version) :
    Settled List.length reader.length (filterSmallMagnitude reader inverted version) := by
  refine Settled.bind (settled_readBigEndian inverted 8 reader) ?_
  rintro ⟨encoded, rest⟩ h
  dsimp only at h ⊢
  split
  · exact settled_pure h
  -- the two top bits of `encoded`
  split
  · exact Settled.bind (settled_readBigEndian inverted 8 rest) fun p h' => Nat.le_trans h' h
  · exact settled_ite_skip h
  · exact settled_ite_skip h
  · exact settled_ite_skip h
  · exact KeyStringError.noConfusion

theorem settled_filterInteger (ctype : UInt8) (reader : List UInt8) (inverted : Bool)
    (version : Version) :
    Settled List.length reader.length (filterInteger ctype reader inverted version) := by
  refine Settled.bind (settled_foldBytes inverted _ 0 reader) ?_
  rintro ⟨integerPart, rest⟩ h
  dsimp only at h ⊢
  split
  · exact settled_pure h
  split
  · exact (settled_skip _ rest).mono h
  -- V1: the rest of the 8 bytes, then the continuation
  refine Settled.bind (settled_foldBytes inverted _ _ rest) ?_
  rintro ⟨fraction, rest'⟩ h'
  exact settled_ite_skip (Nat.le_trans h' h)

/-- A string, inverted or not. -/
theorem settled_readCStringWithNuls_either (inverted : Bool) (reader : List UInt8) :
    Settled (fun p => p.2.length + 1) reader.length
      (if inverted then readInvertedCStringWithNuls reader else readCStringWithNuls reader) := by
  cases inverted
  · exact settled_readCStringWithNuls reader
  · exact settled_readInvertedCStringWithNuls reader

/-- Each branch of an `if` between values of `filterScalar` settles. -/
theorem elim_ite {c : Prop} [Decidable c] {a b : Option (Except KeyStringError (List UInt8))}
    {n : Nat} (ha : a.elim True (Settled List.length n)) (hb : b.elim True (Settled List.length n)) :
    (if c then a else b).elim True (Settled List.length n) := by
  split
  · exact ha
  · exact hb

theorem settled_filterScalar {ctype : UInt8} {reader : List UInt8} {inverted : Bool}
    {version : Version} {result : Except KeyStringError (List UInt8)}
    (h : filterScalar ctype reader inverted version = some result) :
    Settled List.length reader.length result := by
  suffices key : (filterScalar ctype reader inverted version).elim True
      (Settled List.length reader.length) by
    rw [h] at key
    exact key
  unfold filterScalar
  refine elim_ite (settled_pure (Nat.le_refl _)) ?_
  refine elim_ite ?_ ?_
  · exact settled_skip 8 reader
  refine elim_ite ?_ ?_
  · exact settled_skip 12 reader
  refine elim_ite ?_ ?_
  · -- a string
    exact Settled.map ((settled_readCStringWithNuls_either inverted reader).of_le fun _ => by
      simp)
  refine elim_ite ?_ ?_
  · -- bin data: the size, maybe 4 bytes of it, the subtype and the bytes
    refine Settled.bind (settled_readTypeByte inverted reader) ?_
    rintro ⟨size, r1⟩ h1
    have hrest : ∀ size' r2, r2.length ≤ r1.length → Settled List.length reader.length (do
        let (_, r3) ← readTypeByte inverted r2
        skip size' r3) := by
      intro size' r2 h2
      refine Settled.bind (settled_readTypeByte inverted r2) ?_
      rintro ⟨subtype, r3⟩ h3
      exact (settled_skip _ r3).mono (by dsimp only at h1 h2 h3; omega)
    dsimp only
    split
    · exact Settled.bind (settled_readBigEndian inverted 4 r1) fun p h2 => hrest p.1 p.2 h2
    · exact hrest _ r1 (Nat.le_refl _)
  refine elim_ite ?_ ?_
  · -- a regex: the pattern and the flags
    have hread : ∀ r : List UInt8, Settled (fun p => p.2.length + 1) r.length
        ((if inverted then readInvertedCString else readCString) r) := by
      intro r
      cases inverted
      · exact settled_readCString r
      · exact settled_readInvertedCString r
    refine Settled.bind (hread reader) ?_
    rintro ⟨pattern, r1⟩ h1
    refine Settled.bind (hread r1) ?_
    rintro ⟨flags, r2⟩ h2
    exact settled_pure (by dsimp only at h1 h2; omega)
  refine elim_ite ?_ ?_
  · -- a DBRef: the namespace and the OID
    refine Settled.bind (settled_readBigEndian inverted 4 reader) ?_
    rintro ⟨size, r1⟩ h1
    refine Settled.bind (settled_skip size r1) ?_
    intro r2 h2
    exact (settled_skip 12 r2).mono (by dsimp only at h1; omega)
  refine elim_ite ?_ ?_
  · exact settled_filterLargeMagnitude reader _ version
  refine elim_ite ?_ ?_
  · exact settled_filterLargeMagnitude reader _ version
  refine elim_ite ?_ ?_
  · exact settled_filterSmallMagnitude reader _ version
  refine elim_ite ?_ ?_
  · exact settled_filterSmallMagnitude reader _ version
  refine elim_ite ?_ ?_
  · exact settled_filterInteger ctype reader _ version
  refine elim_ite ?_ ?_
  · exact settled_filterInteger ctype reader _ version
  exact elim_ite trivial KeyStringError.noConfusion

/-- The skipper settles when its fuel covers twice the bytes: `readBson` and the array loop read
a type byte before each value they pass to `filterKeyFromKeyString`, which in turn passes an
object or an array on with the same bytes. -/
theorem settled_skipper (fuel : Nat) :
    (∀ reader inverted version, 2 * reader.length + 1 ≤ fuel →
      Settled List.length reader.length (readBson fuel reader inverted version)) ∧
    (∀ ctype reader inverted version, 2 * reader.length + 2 ≤ fuel →
      Settled List.length reader.length
        (filterKeyFromKeyString fuel ctype reader inverted version)) ∧
    (∀ reader inverted version, 2 * reader.length + 1 ≤ fuel →
      Settled List.length reader.length (filterArray fuel reader inverted version)) := by
  induction fuel with
  | zero => exact ⟨fun _ _ _ h => by omega, fun _ _ _ _ h => by omega, fun _ _ _ h => by omega⟩
  | succ fuel ih =>
    obtain ⟨ihBson, ihFilter, ihArray⟩ := ih
    refine ⟨?_, ?_, ?_⟩
    · -- a field: its type byte, its name, its ctype and its value; then the next field
      intro reader inverted version hfuel
      rw [readBson]
      refine Settled.bind (settled_readTypeByte inverted reader) ?_
      rintro ⟨t, r1⟩ h1
      dsimp only at h1 ⊢
      split
      · exact settled_pure (by omega)
      refine Settled.bind_ite (settled_readInvertedCString r1) (settled_readCString r1) ?_
      rintro ⟨name, r2⟩ h2
      refine Settled.bind (settled_readTypeByte inverted r2) ?_
      rintro ⟨ctype, r3⟩ h3
      dsimp only at h2 h3
      refine Settled.bind (ihFilter ctype r3 inverted version (by omega)) ?_
      intro r4 h4
      exact (ihBson r4 inverted version (by omega)).mono (by omega)
    · intro ctype reader inverted version hfuel
      rw [filterKeyFromKeyString]
      split
      · next result hs => exact settled_filterScalar hs
      split
      · exact ihBson reader inverted version (by omega)
      split
      · exact ihArray reader inverted version (by omega)
      -- code with scope: the code, then the scope
      dsimp only
      refine Settled.bind_ite (settled_readInvertedCStringWithNuls reader)
        (settled_readCStringWithNuls reader) ?_
      rintro ⟨code, r1⟩ h1
      dsimp only at h1
      exact (ihBson r1 inverted version (by omega)).mono (by omega)
    · -- an element: its type byte and its value; then the next element
      intro reader inverted version hfuel
      rw [filterArray]
      refine Settled.bind (settled_readTypeByte inverted reader) ?_
      rintro ⟨elemType, r1⟩ h1
      dsimp only at h1 ⊢
      split
      · exact settled_pure (by omega)
      refine Settled.bind (ihFilter elemType r1 inverted version (by omega)) ?_
      intro r2 h2
      exact (ihArray r2 inverted version (by omega)).mono (by omega)

theorem settled_get (ord : KeyOrdering) (i : Nat) : Settled (fun _ => 0) 0 (ord.get i) := by
  unfold KeyOrdering.get
  split
  · exact Nat.le_refl _
  · exact KeyStringError.noConfusion

/-- The walk over the fields settles with fuel one more than the bytes: each turn reads a type
byte. Its result is a count of bytes left. -/
theorem settled_getKeySizeLoop (ord : KeyOrdering) (version : Version) :
    ∀ fuel i reader, reader.length < fuel →
      Settled id reader.length (getKeySizeLoop ord version fuel i reader)
  | 0, _, _, h => absurd h (Nat.not_lt_zero _)
  | fuel + 1, i, reader, h => by
    rw [getKeySizeLoop]
    split
    · exact Nat.zero_le _
    refine Settled.bind (settled_get ord i) ?_
    intro d _
    refine Settled.bind (settled_readTypeByte _ reader) ?_
    rintro ⟨ctype, rest⟩ h1
    dsimp only at h1 ⊢
    split
    · exact Nat.le_refl _
    -- the field's value, with fuel twice its bytes, then the next field
    refine Settled.bind ((settled_skipper _).2.1 ctype rest _ version (Nat.le_refl _)) ?_
    intro r2 h2
    exact (settled_getKeySizeLoop ord version fuel (i + 1) r2 (by omega)).mono (by omega)

/-- The model of `getKeySize` never runs out of fuel: its outcomes are those of the source. -/
theorem getKeySize_ne_outOfFuel (buffer : List UInt8) (ord : KeyOrdering) (version : Version) :
    getKeySize buffer ord version ≠ .error .outOfFuel := by
  have h : Settled (fun _ => 0) 0 (getKeySize buffer ord version) := by
    unfold getKeySize
    dsimp only
    split
    · exact KeyStringError.noConfusion
    refine Settled.bind (settled_getKeySizeLoop ord version _ 0 buffer (Nat.lt_succ_self _)) ?_
    intro remainingBytes _
    split
    · exact KeyStringError.noConfusion
    · exact Nat.le_refl _
  exact h.ne_outOfFuel

/-- The key `Builder(version, {}, ord, r)` of the empty object is `kEnd` followed by the
`RecordId`. When the first field of `ord` is descending, `getKeySize` reads that `kEnd` as the
type byte of field 0, inverted, and reaches `MONGO_UNREACHABLE`, where
`sizeWithoutRecordIdAtEnd` finds the one byte of the key. -/
theorem getKeySize_descending_empty_object_unreachable (version : Version) (ord : KeyOrdering)
    (hord : ord.get 0 = .ok (-1)) (r : RecordId) (hr : 0 ≤ r.repr) :
    ∃ ks, resetToKey [] r = some ks ∧ sizeWithoutRecordIdAtEnd ks = some 1 ∧
      getKeySize ks ord version = .error .unreachable := by
  refine ⟨kEnd :: recordIdBytes r.repr.toNat, ?_, ?_, ?_⟩
  · simp [resetToKey, appendRecordId_of_nonneg hr, appendDiscriminator]
  · exact sizeWithoutRecordIdAtEnd_append (toNat_repr_lt hr) [kEnd]
  · -- field 0 is descending: the type byte read is `~~~kEnd`, which is neither `kEnd` nor a ctype
    have hne : (~~~kEnd) ≠ kEnd := by decide
    simp [getKeySize, getKeySizeLoop, hord, readTypeByte, filterKeyFromKeyString,
      filterScalar_not_kEnd, hne, bind, Except.bind]

theorem getKeySize_descending_empty_object_unreachable_at_one :
    (⟨1⟩ : KeyOrdering).get 0 = .ok (-1) ∧ 0 ≤ (RecordId.ofUInt64 1).repr ∧
      ∃ ks, resetToKey [] (RecordId.ofUInt64 1) = some ks ∧ sizeWithoutRecordIdAtEnd ks = some 1 ∧
        getKeySize ks ⟨1⟩ .V1 = .error .unreachable :=
  have hord : (⟨1⟩ : KeyOrdering).get 0 = .ok (-1) := by decide
  have hr : 0 ≤ (RecordId.ofUInt64 1).repr := by decide
  ⟨hord, hr, getKeySize_descending_empty_object_unreachable .V1 ⟨1⟩ hord _ hr⟩

end KeyString

end Mongo
