import Mongo.BSONTypes

/-! `validateBSON` (`bson/bson_validate.cpp`): an explicit-stack state machine over a byte buffer
that checks the framing of a BSON document. The buffer is the function from positions to bytes
with its length `maxLength`; positions are `uint64_t` in the source and never come near `2^64`
for a buffer that fits in memory, so they are natural numbers here. The `int` fields of the
source are `Int32`, with the narrowing conversions it makes. The `_id` element that `makeError`
quotes, and the field name it appends, are left out of the error messages. -/

namespace Mongo.BSONValidate

/-- The codes of the `Status` values the validator returns. -/
inductive ErrorCode
  | invalidBSON
  | overflow
  deriving DecidableEq, Repr

/-- A `Status` that is not OK. -/
structure ValidateError where
  code : ErrorCode
  msg : String
  deriving DecidableEq, Repr

/-- `makeError(baseMsg, ...)`. -/
def makeError (baseMsg : String) : ValidateError := ⟨.invalidBSON, baseMsg⟩

/-- The value of the `k` bytes from `pos` read as a little-endian number. -/
def readLE (bytes : Nat → UInt8) (pos : Nat) : Nat → Nat
  | 0 => 0
  | k + 1 => (bytes pos).toNat + 256 * readLE bytes (pos + 1) k

/-- `memchr(bytes + pos, 0, len)`: the offset of the first NUL among the `len` bytes from `pos`. -/
def memchrNul (bytes : Nat → UInt8) (pos : Nat) : Nat → Option Nat
  | 0 => none
  | len + 1 => if bytes pos = 0 then some 0 else (memchrNul bytes (pos + 1) len).map (· + 1)

/-- The `Buffer` class less its read position, which the validator threads through: `_buffer`
and `_maxLength`. -/
structure Buffer where
  bytes : Nat → UInt8
  maxLength : Nat

namespace Buffer

variable (b : Buffer)

/-- `readNumber<N>` at `position` for an `N` of `size` bytes: its little-endian value and the
position after it, when the bytes lie below `_maxLength`. -/
def readNumber (position size : Nat) : Option (Nat × Nat) :=
  if position + size > b.maxLength then none
  else some (readLE b.bytes position size, position + size)

/-- `skip(sz)`: the new position, and whether it is still inside the buffer. The source counts
on a terminator always following what it skips. -/
def skip (position sz : Nat) : Bool × Nat :=
  (decide (position + sz < b.maxLength), position + sz)

/-- `readCString`: the position past the next NUL. -/
def readCString (position : Nat) : Except ValidateError Nat :=
  match memchrNul b.bytes position (b.maxLength - position) with
  | none => throw (makeError "no end of c-string")
  | some len => pure (position + len + 1)

/-- `readUTF8String`: an `int32` length of at least 1, then that many bytes, the last a NUL. -/
def readUTF8String (position : Nat) : Except ValidateError Nat :=
  match b.readNumber position 4 with
  | none => throw (makeError "invalid bson")
  | some (sz, position) =>
    if Int32.ofNat sz ≤ 0 then throw (makeError "invalid bson")
    else
      let skipped := b.skip position ((Int32.ofNat sz).toInt - 1).toNat
      if !skipped.1 then throw (makeError "invalid bson")
      else
        match b.readNumber skipped.2 1 with
        | none => throw (makeError "invalid bson")
        | some (c, position) =>
          if c ≠ 0 then throw (makeError "not null terminated string") else pure position

/-- `skip(n)` that fails with `msg`. -/
def skipOrFail (position n : Nat) (msg : String) : Except ValidateError Nat :=
  if (b.skip position n).1 then pure (b.skip position n).2 else throw (makeError msg)

end Buffer

/-- The `BSONType` whose enumerator is the signed type byte `t`. -/
def typeOfCode (t : Int) : Option BSONType :=
  match t with
  | -1 => some .minKey | 0 => some .eoo | 1 => some .numberDouble | 2 => some .string
  | 3 => some .object | 4 => some .array | 5 => some .binData | 6 => some .undefined
  | 7 => some .jstOID | 8 => some .bool | 9 => some .date | 10 => some .jstNULL
  | 11 => some .regEx | 12 => some .dbRef | 13 => some .code | 14 => some .symbol
  | 15 => some .codeWScope | 16 => some .numberInt | 17 => some .bsonTimestamp
  | 18 => some .numberLong | 19 => some .numberDecimal | 127 => some .maxKey
  | _ => none

/-- `ValidationState::State`. -/
inductive ValidationState
  | beginObj
  | withinObj
  | endObj
  | beginCodeWScope
  | endCodeWScope
  | done
  deriving DecidableEq, Repr

/-- A `ValidationObjectFrame`: `_startPosition` keeps the position, narrowed to `int`, in its low
31 bits and the code-with-scope flag in bit 31. -/
structure ValidationObjectFrame where
  startPosition : Nat
  isCodeWithScope : Bool
  expectedSize : Int32

/-- A frame opened at `position`, as `setStartPosition` and `setIsCodeWithScope` leave it. -/
def ValidationObjectFrame.start (position : Nat) (isCodeWithScope : Bool)
    (expectedSize : Int32) : ValidationObjectFrame :=
  ⟨position % 2 ^ 31, isCodeWithScope, expectedSize⟩

/-- The `switch (type)` of `validateElementInfo`, from `position` past the field name: the
payload of a scalar is checked, and an object, array or code-with-scope value is handed on as
the next state. -/
def validatePayload (b : Buffer) (position : Nat) (state : ValidationState) :
    Option BSONType → Except ValidateError (ValidationState × Nat)
  | some .minKey | some .maxKey | some .jstNULL | some .undefined => pure (state, position)
  | some .jstOID => return (state, ← b.skipOrFail position kOIDSize "invalid bson")
  | some .numberInt => return (state, ← b.skipOrFail position 4 "invalid bson")
  | some .bool =>
    match b.readNumber position 1 with
    | none => throw (makeError "invalid bson")
    | some (val, position) =>
      if val ≠ 0 ∧ val ≠ 1 then throw (makeError "invalid boolean value")
      else pure (state, position)
  | some .numberDouble | some .numberLong | some .bsonTimestamp | some .date =>
    return (state, ← b.skipOrFail position 8 "invalid bson")
  | some .numberDecimal => return (state, ← b.skipOrFail position 16 "Invalid bson")
  | some .dbRef => do
    let position ← b.readUTF8String position
    return (state, ← b.skipOrFail position kOIDSize "invalid bson length")
  | some .regEx => do
    let position ← b.readCString position
    return (state, ← b.readCString position)
  | some .code | some .symbol | some .string => return (state, ← b.readUTF8String position)
  | some .binData =>
    match b.readNumber position 4 with
    | none => throw (makeError "invalid bson")
    | some (sz, position) =>
      if Int32.ofNat sz < 0 ∨ Int32.ofNat sz = Int32.maxValue then
        throw (makeError "invalid size in bson")
      else return (state, ← b.skipOrFail position (1 + (Int32.ofNat sz).toInt).toNat "invalid bson")
  | some .codeWScope => pure (.beginCodeWScope, position)
  | some .object | some .array => pure (.beginObj, position)
  | _ => throw (makeError "invalid bson type")

/-- `validateElementInfo` at `position`: the type byte, the end of the object at `EOO`, else the
field name and the payload. -/
def validateElementInfo (b : Buffer) (position : Nat) (state : ValidationState) :
    Except ValidateError (ValidationState × Nat) :=
  match b.readNumber position 1 with
  | none => throw (makeError "invalid bson")
  | some (t, position) =>
    if typeOfCode (Int8.ofNat t).toInt = some .eoo then pure (.endObj, position)
    else do
      let position ← b.readCString position
      validatePayload b position state (typeOfCode (Int8.ofNat t).toInt)

/-- The state of the loop of `validateBSONIterative`: the read position, the frames (the back of
the vector first) and the state. -/
structure Run where
  position : Nat
  frames : List ValidationObjectFrame
  state : ValidationState

/-- `int actualLength = buffer->position() - curr->startPosition()`. -/
def actualLength (r : Run) (curr : ValidationObjectFrame) : Int32 :=
  Int32.ofNat (r.position - curr.startPosition)

/-- One turn of the `while` loop of `validateBSONIterative`, for a depth limit `maxDepth`
(`BSONDepth::getMaxAllowableDepth()`). -/
def step (maxDepth : Nat) (b : Buffer) (r : Run) : Except ValidateError Run :=
  match r.state, r.frames with
  | .beginObj, frames =>
    if frames.length > maxDepth then
      throw ⟨.overflow, "BSONObj exceeded maximum nested object depth: " ++ toString maxDepth⟩
    else
      match b.readNumber r.position 4 with
      | none => throw (makeError "bson size is larger than buffer size")
      | some (size, position) =>
        pure ⟨position, .start r.position false (Int32.ofNat size) :: frames, .withinObj⟩
  | .withinObj, frames => do
    let (state, position) ← validateElementInfo b r.position .withinObj
    pure ⟨position, frames, state⟩
  | .endObj, curr :: frames =>
    if actualLength r curr ≠ curr.expectedSize then
      throw (makeError "bson length doesn't match what we found")
    else
      match frames with
      | [] => pure ⟨r.position, [], .done⟩
      | next :: _ =>
        pure ⟨r.position, frames, if next.isCodeWithScope then .endCodeWScope else .withinObj⟩
  | .beginCodeWScope, frames =>
    match b.readNumber r.position 4 with
    | none => throw (makeError "invalid bson CodeWScope size")
    | some (size, position) => do
      let position ← b.readUTF8String position
      pure ⟨position, .start r.position true (Int32.ofNat size) :: frames, .beginObj⟩
  | .endCodeWScope, curr :: frames =>
    if actualLength r curr ≠ curr.expectedSize then
      throw (makeError "bson length for CodeWScope doesn't match what we found")
    else if frames = [] then throw (makeError "unnested CodeWScope")
    else pure ⟨r.position, frames, .withinObj⟩
  -- `curr` always points at a frame in these states, and `Done` leaves the loop
  | _, _ => pure r

/-- The loop of `validateBSONIterative` with `fuel` turns: `none` when the fuel runs out, else
how the loop ends. -/
def iterate (maxDepth : Nat) (b : Buffer) : Nat → Run → Option (Except ValidateError Unit)
  | 0, _ => none
  | fuel + 1, r =>
    if r.state = .done then some (pure ())
    else
      match step maxDepth b r with
      | .error e => some (.error e)
      | .ok r' => iterate maxDepth b fuel r'

/-- Enough turns for any buffer of length `maxLength`: every turn takes the measure
`3 * (maxLength - position) + frames + rank state` down. -/
def fuelFor (maxLength : Nat) : Nat := 3 * maxLength + 5

/-- `validateBSON(buffer, maxLength, version)`; `none` would mean the loop had not finished. -/
def validateBSON (maxDepth : Nat) (bytes : Nat → UInt8) (maxLength : Nat) :
    Option (Except ValidateError Unit) :=
  if maxLength < 5 then some (.error (makeError "bson data has to be at least 5 bytes"))
  else iterate maxDepth ⟨bytes, maxLength⟩ (fuelFor maxLength) ⟨0, [], .beginObj⟩

/-! ### Every read lies below `maxLength` -/

theorem readLE_congr {bytes bytes' : Nat → UInt8} {pos k : Nat}
    (h : ∀ i, pos ≤ i → i < pos + k → bytes i = bytes' i) :
    readLE bytes pos k = readLE bytes' pos k := by
  induction k generalizing pos with
  | zero => rfl
  | succ k ih =>
    simp only [readLE]
    rw [h pos le_rfl (by omega), ih fun i h1 h2 => h i (by omega) (by omega)]

theorem memchrNul_congr {bytes bytes' : Nat → UInt8} {pos len : Nat}
    (h : ∀ i, pos ≤ i → i < pos + len → bytes i = bytes' i) :
    memchrNul bytes pos len = memchrNul bytes' pos len := by
  induction len generalizing pos with
  | zero => rfl
  | succ len ih =>
    simp only [memchrNul]
    rw [h pos le_rfl (by omega), ih fun i h1 h2 => h i (by omega) (by omega)]

/-- Two buffers of one length with the same bytes below it. -/
def Buffer.Agree (b b' : Buffer) : Prop :=
  b.maxLength = b'.maxLength ∧ ∀ i < b.maxLength, b.bytes i = b'.bytes i

namespace Buffer

variable {b b' : Buffer} (h : b.Agree b')
include h

theorem readNumber_congr (position size : Nat) :
    b.readNumber position size = b'.readNumber position size := by
  unfold readNumber
  rw [← h.1]
  split_ifs with hs
  · rfl
  · rw [readLE_congr fun i _ hi => h.2 i (by omega)]

theorem skip_congr (position sz : Nat) : b.skip position sz = b'.skip position sz := by
  unfold skip
  rw [h.1]

theorem readCString_congr (position : Nat) : b.readCString position = b'.readCString position := by
  unfold readCString
  rw [← h.1, memchrNul_congr fun i _ hi => h.2 i (by omega)]

theorem readUTF8String_congr (position : Nat) :
    b.readUTF8String position = b'.readUTF8String position := by
  simp only [readUTF8String, readNumber_congr h, skip_congr h]

theorem skipOrFail_congr (position n : Nat) (msg : String) :
    b.skipOrFail position n msg = b'.skipOrFail position n msg := by
  simp only [skipOrFail, skip_congr h]

end Buffer

section
variable {b b' : Buffer} (h : b.Agree b')
include h

theorem validatePayload_congr (position : Nat) (state : ValidationState) (type : Option BSONType) :
    validatePayload b position state type = validatePayload b' position state type := by
  rcases type with _ | type
  · rfl
  · cases type <;> simp only [validatePayload, Buffer.readNumber_congr h,
      Buffer.readCString_congr h, Buffer.readUTF8String_congr h, Buffer.skipOrFail_congr h]

theorem validateElementInfo_congr (position : Nat) (state : ValidationState) :
    validateElementInfo b position state = validateElementInfo b' position state := by
  simp only [validateElementInfo, Buffer.readNumber_congr h, Buffer.readCString_congr h,
    validatePayload_congr h]

theorem step_congr (maxDepth : Nat) (r : Run) : step maxDepth b r = step maxDepth b' r := by
  simp only [step, Buffer.readNumber_congr h, Buffer.readUTF8String_congr h,
    validateElementInfo_congr h]

theorem iterate_congr (maxDepth fuel : Nat) (r : Run) :
    iterate maxDepth b fuel r = iterate maxDepth b' fuel r := by
  induction fuel generalizing r with
  | zero => rfl
  | succ fuel ih => simp only [iterate, step_congr h, ih]

end

theorem validateBSON_reads_inside (maxDepth : Nat) (bytes bytes' : Nat → UInt8) (n : Nat)
    (h : ∀ i < n, bytes i = bytes' i) :
    validateBSON maxDepth bytes n = validateBSON maxDepth bytes' n := by
  have hagree : Buffer.Agree ⟨bytes, n⟩ ⟨bytes', n⟩ := ⟨rfl, h⟩
  simp only [validateBSON, iterate_congr hagree]

/-! ### The loop ends -/

theorem bind_eq_ok {α β ε : Type} {x : Except ε α} {f : α → Except ε β} {v : β}
    (h : (x >>= f) = .ok v) : ∃ a, x = .ok a ∧ f a = .ok v := by
  cases x with
  | error e => cases h
  | ok a => exact ⟨a, rfl, h⟩

theorem memchrNul_lt {bytes : Nat → UInt8} {pos len k : Nat} (h : memchrNul bytes pos len = some k) :
    k < len := by
  induction len generalizing pos k with
  | zero => simp [memchrNul] at h
  | succ len ih =>
    simp only [memchrNul] at h
    split_ifs at h with hz
    · cases h; omega
    · obtain ⟨k', hk', rfl⟩ := Option.map_eq_some_iff.mp h
      have := ih hk'
      omega

namespace Buffer

variable {b : Buffer}

theorem readNumber_some {position size v p : Nat} (h : b.readNumber position size = some (v, p)) :
    p = position + size ∧ p ≤ b.maxLength := by
  unfold readNumber at h
  split_ifs at h with hs
  cases h
  omega

theorem skipOrFail_ok {position n p : Nat} {msg : String} (h : b.skipOrFail position n msg = .ok p) :
    p = position + n ∧ p < b.maxLength := by
  unfold skipOrFail skip at h
  split_ifs at h with hs
  cases h
  simpa using hs

theorem readCString_ok {position p : Nat} (h : b.readCString position = .ok p) :
    position < p ∧ p ≤ b.maxLength := by
  unfold readCString at h
  split at h
  · cases h
  · rename_i len hm
    cases h
    have := memchrNul_lt hm
    omega

theorem readUTF8String_ok {position p : Nat} (h : b.readUTF8String position = .ok p) :
    position + 5 ≤ p ∧ p ≤ b.maxLength := by
  unfold readUTF8String at h
  split at h
  · cases h
  · rename_i sz p1 h1
    obtain ⟨rfl, -⟩ := readNumber_some h1
    split at h
    · cases h
    · dsimp only at h
      split at h
      · cases h
      · split at h
        · cases h
        · rename_i hskip c p2 h2
          obtain ⟨rfl, hp2⟩ := readNumber_some h2
          split at h
          · cases h
          · cases h
            simp only [skip] at hp2 ⊢
            omega

end Buffer

/-- What one element does to the position and the state. -/
theorem validatePayload_ok {b : Buffer} {position p : Nat} {state s : ValidationState}
    {type : Option BSONType} (hp : position ≤ b.maxLength)
    (h : validatePayload b position state type = .ok (s, p)) :
    position ≤ p ∧ p ≤ b.maxLength ∧ (s = state ∨ s = .beginObj ∨ s = .beginCodeWScope) := by
  rcases type with _ | type
  · cases h
  · cases type <;> simp only [validatePayload] at h
    case minKey | maxKey | jstNULL | undefined =>
      cases h
      exact ⟨le_rfl, hp, .inl rfl⟩
    case jstOID | numberInt | numberDouble | numberLong | bsonTimestamp | date | numberDecimal =>
      obtain ⟨q, hq, h⟩ := bind_eq_ok h
      cases h
      have := Buffer.skipOrFail_ok hq
      exact ⟨by omega, by omega, .inl rfl⟩
    case code | symbol | string =>
      obtain ⟨q, hq, h⟩ := bind_eq_ok h
      cases h
      have := Buffer.readUTF8String_ok hq
      exact ⟨by omega, by omega, .inl rfl⟩
    case dbRef =>
      obtain ⟨q, hq, h⟩ := bind_eq_ok h
      obtain ⟨q', hq', h⟩ := bind_eq_ok h
      cases h
      have := Buffer.readUTF8String_ok hq
      have := Buffer.skipOrFail_ok hq'
      exact ⟨by omega, by omega, .inl rfl⟩
    case regEx =>
      obtain ⟨q, hq, h⟩ := bind_eq_ok h
      obtain ⟨q', hq', h⟩ := bind_eq_ok h
      cases h
      have := Buffer.readCString_ok hq
      have := Buffer.readCString_ok hq'
      exact ⟨by omega, by omega, .inl rfl⟩
    case bool =>
      split at h
      · cases h
      · rename_i val q hq
        have := Buffer.readNumber_some hq
        split at h
        · cases h
        · cases h
          exact ⟨by omega, by omega, .inl rfl⟩
    case binData =>
      split at h
      · cases h
      · rename_i sz q hq
        have := Buffer.readNumber_some hq
        split at h
        · cases h
        · obtain ⟨q', hq', h⟩ := bind_eq_ok h
          cases h
          have := Buffer.skipOrFail_ok hq'
          exact ⟨by omega, by omega, .inl rfl⟩
    case codeWScope =>
      cases h
      exact ⟨le_rfl, hp, .inr (.inr rfl)⟩
    case object | array =>
      cases h
      exact ⟨le_rfl, hp, .inr (.inl rfl)⟩
    case eoo => cases h

theorem validateElementInfo_ok {b : Buffer} {position p : Nat} {state s : ValidationState}
    (h : validateElementInfo b position state = .ok (s, p)) :
    position < p ∧ p ≤ b.maxLength ∧
      (s = state ∨ s = .endObj ∨ s = .beginObj ∨ s = .beginCodeWScope) := by
  unfold validateElementInfo at h
  split at h
  · cases h
  · rename_i t p1 h1
    obtain ⟨rfl, hp1⟩ := Buffer.readNumber_some h1
    split at h
    · cases h
      exact ⟨by omega, hp1, .inr (.inl rfl)⟩
    · obtain ⟨p2, h2, h⟩ := bind_eq_ok h
      have hp2 := Buffer.readCString_ok h2
      obtain ⟨hle, hmax, hs⟩ := validatePayload_ok hp2.2 h
      refine ⟨by omega, hmax, ?_⟩
      rcases hs with hs | hs | hs <;> simp [hs]


/-- The order in which the turns go through the states. -/
def ValidationState.rank : ValidationState → Nat
  | .done => 0
  | .withinObj => 1
  | .endObj | .endCodeWScope => 2
  | .beginObj | .beginCodeWScope => 3

/-- The runs the loop reaches: inside the buffer, with a frame open except before the first
object and at the end. -/
def Run.Inv (b : Buffer) (r : Run) : Prop :=
  r.position ≤ b.maxLength ∧ (r.frames = [] → r.state = .beginObj ∨ r.state = .done)

/-- What every turn takes down. -/
def Run.measure (b : Buffer) (r : Run) : Nat :=
  3 * (b.maxLength - r.position) + r.frames.length + r.state.rank

theorem step_progress {maxDepth : Nat} {b : Buffer} {r r' : Run} (hinv : r.Inv b)
    (hdone : r.state ≠ .done) (h : step maxDepth b r = .ok r') :
    r'.Inv b ∧ r'.measure b < r.measure b := by
  obtain ⟨p, frames, state⟩ := r
  obtain ⟨hp, hframes⟩ := hinv
  simp only at hp hframes hdone
  cases state with
  | done => exact absurd rfl hdone
  | beginObj =>
    simp only [step] at h
    split_ifs at h with hdepth
    split at h
    · cases h
    · rename_i size q hq
      cases h
      obtain ⟨rfl, hq⟩ := Buffer.readNumber_some hq
      refine ⟨⟨hq, by simp⟩, ?_⟩
      simp only [Run.measure, ValidationState.rank, List.length_cons]
      omega
  | withinObj =>
    -- a frame is open, since the first turn pushed one
    have hne : frames ≠ [] := fun he => by simpa using hframes he
    simp only [step] at h
    obtain ⟨⟨s, q⟩, hq, h⟩ := bind_eq_ok h
    cases h
    obtain ⟨hlt, hq, -⟩ := validateElementInfo_ok hq
    refine ⟨⟨hq, fun he => absurd he hne⟩, ?_⟩
    have hrank : s.rank ≤ 3 := by cases s <;> simp [ValidationState.rank]
    simp only [Run.measure, ValidationState.rank] at hrank ⊢
    omega
  | endObj =>
    cases frames with
    | nil => simp at hframes
    | cons curr frames =>
      simp only [step] at h
      split_ifs at h with hlen
      cases frames with
      | nil =>
        cases h
        refine ⟨⟨hp, fun _ => .inr rfl⟩, ?_⟩
        simp only [Run.measure, ValidationState.rank, List.length_cons, List.length_nil]
        omega
      | cons next tail =>
        cases h
        refine ⟨⟨hp, by simp⟩, ?_⟩
        have hrank : (if next.isCodeWithScope = true then ValidationState.endCodeWScope
            else .withinObj).rank ≤ 2 := by split <;> simp [ValidationState.rank]
        simp only [Run.measure, ValidationState.rank, List.length_cons] at hrank ⊢
        omega
  | beginCodeWScope =>
    simp only [step] at h
    split at h
    · cases h
    · rename_i size q hq
      obtain ⟨rfl, -⟩ := Buffer.readNumber_some hq
      obtain ⟨q', hq', h⟩ := bind_eq_ok h
      cases h
      obtain ⟨hq', hmax⟩ := Buffer.readUTF8String_ok hq'
      refine ⟨⟨hmax, by simp⟩, ?_⟩
      simp only [Run.measure, ValidationState.rank, List.length_cons]
      omega
  | endCodeWScope =>
    cases frames with
    | nil => simp at hframes
    | cons curr frames =>
      simp only [step] at h
      split_ifs at h with hlen hnil
      cases h
      refine ⟨⟨hp, fun he => absurd he hnil⟩, ?_⟩
      simp only [Run.measure, ValidationState.rank, List.length_cons]
      omega

/-- With more fuel than the measure, the loop ends. -/
theorem iterate_isSome {maxDepth : Nat} {b : Buffer} (fuel : Nat) :
    ∀ r : Run, r.Inv b → r.measure b < fuel → (iterate maxDepth b fuel r).isSome := by
  induction fuel with
  | zero => intro r _ h; omega
  | succ fuel ih =>
    intro r hinv hfuel
    simp only [iterate]
    split_ifs with hdone
    · rfl
    split
    · rfl
    · rename_i r' hstep
      obtain ⟨hinv', hlt⟩ := step_progress hinv hdone hstep
      exact ih r' hinv' (by omega)

/-- The validator finishes on every buffer. -/
theorem validateBSON_isSome (maxDepth : Nat) (bytes : Nat → UInt8) (maxLength : Nat) :
    (validateBSON maxDepth bytes maxLength).isSome := by
  unfold validateBSON
  split_ifs with h
  · rfl
  · apply iterate_isSome
    · exact ⟨Nat.zero_le _, fun _ => .inl rfl⟩
    · simp only [Run.measure, ValidationState.rank, fuelFor, List.length_nil]
      omega

/-- A buffer of `2^32 + 100` bytes whose document declares a length of 100 but whose first
element is a BinData of 2147483646 bytes. Three BinData elements take the read position to
`2^32 + 100`, which `int actualLength` narrows to the declared 100, and the buffer passes. -/
theorem validateBSON_accepts_length_off_by_two_pow_32 :
    let b : Buffer :=
      -- the elements start at 4, `e2` and `e3`
      let e2 := 2147483658
      let e3 := 4294967312
      ⟨fun i =>
        if i = 0 then 100
        else if i = 4 ∨ i = e2 ∨ i = e3 then 5
        else if i = 5 ∨ i = e2 + 1 ∨ i = e3 + 1 then 97
        else if i = 7 ∨ i = e2 + 3 then 0xFE
        else if i = 8 ∨ i = 9 ∨ i = e2 + 4 ∨ i = e2 + 5 then 0xFF
        else if i = 10 ∨ i = e2 + 6 then 0x7F
        else if i = e3 + 3 then 75
        else 0, 2 ^ 32 + 100⟩
    readLE b.bytes 0 4 = 100 ∧ readLE b.bytes 7 4 = 2147483646 ∧
      (validateBSON 200 b.bytes b.maxLength).map Except.toOption = some (some ()) := by
  decide +kernel

end Mongo.BSONValidate
