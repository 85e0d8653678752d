import Mathlib

/-! Base64 of `util/base64.cpp`. `encodeImpl` turns each group of three octets into four
characters of `kEncodeTable`, in chunks of at most 128 groups written at once, and pads a tail of
one or two octets with `'='`; `decodeImpl` reads the groups of four characters back through the
inverse table, all but the last in chunks of at most 170 groups, and reads the last by the `'='`
at its end. `validate` strips up to two trailing `'='` and checks that what is left is in the
table. Every overload writes the chunks to its own output; the output is their concatenation. -/

namespace Mongo

namespace Base64

/-- The bytes of a `StringData`, a `std::string` or a stream. -/
abbrev Bytes := List UInt8

/-- A `uassert` that fails, with its code and message. -/
structure Base64Error where
  code : Nat
  reason : String
  deriving DecidableEq, Repr

/-- The byte of an ASCII character literal. -/
def charByte (c : Char) : UInt8 := c.toNat.toUInt8

/-- `kInvalid`: `~0` as an `unsigned char`. -/
def kInvalid : Nat := 255

/-- `search(table, c)`: the position of `c` in the table, or `kInvalid`. -/
def search (table : Bytes) (c : Nat) : Nat := go 0 table
where
  go (i : Nat) : Bytes → Nat
    | [] => kInvalid
    | t :: ts => if t.toNat = c then i else go (i + 1) ts

/-- `kEncodeTable`. -/
def kEncodeTable : Bytes :=
  "ABCDEFGHIJKLMNOPQRSTUVWXYZabcdefghijklmnopqrstuvwxyz0123456789+/".toList.map charByte

/-- `kDecodeTable[x]`: the table `invertTable` builds holds `search(kEncodeTable, x)` at `x`. -/
def kDecodeTable (x : UInt8) : Nat := (search kEncodeTable x.toNat).toUInt8.toNat

/-- `valid(x)`. -/
def valid (x : UInt8) : Bool := kDecodeTable x != kInvalid

/-- `encodeSextet(x)`. -/
def encodeSextet (x : Nat) : UInt8 := kEncodeTable.getD (x &&& 0b111111) 0

/-- The body of the inner loop of `encodeImpl`: three octets to four characters. -/
def encodeGroup (a b c : UInt8) : Bytes :=
  let accum := 0 ||| a.toNat <<< (8 * (2 - 0)) ||| b.toNat <<< (8 * (2 - 1)) ||| c.toNat <<< (8 * (2 - 2))
  [encodeSextet (accum >>> (6 * (3 - 0))), encodeSextet (accum >>> (6 * (3 - 1))),
    encodeSextet (accum >>> (6 * (3 - 2))), encodeSextet (accum >>> (6 * (3 - 3)))]

/-- `case 2` of `encodeImpl`: two octets to three characters and a `'='`. -/
def encodeTail2 (a b : UInt8) : Bytes :=
  let accum := 0 ||| a.toNat <<< (8 * (2 - 0)) ||| b.toNat <<< (8 * (2 - 1))
  [encodeSextet (accum >>> (6 * (3 - 0))), encodeSextet (accum >>> (6 * (3 - 1))),
    encodeSextet (accum >>> (6 * (3 - 2))), charByte '=']

/-- `case 1` of `encodeImpl`: one octet to two characters and two `'='`. -/
def encodeTail1 (a : UInt8) : Bytes :=
  let accum := 0 ||| a.toNat <<< (8 * (2 - 0))
  [encodeSextet (accum >>> (6 * (3 - 0))), encodeSextet (accum >>> (6 * (3 - 1))), charByte '=',
    charByte '=']

/-- The inner loop of `encodeImpl`: `chunkGroups` groups into the buffer, and the octets left. -/
def encodeChunk : Nat → Bytes → Bytes × Bytes
  | chunkGroups + 1, a :: b :: c :: data =>
    let (buf, data) := encodeChunk chunkGroups data
    (encodeGroup a b c ++ buf, data)
  | _, data => ([], data)

/-- The outer loop of `encodeImpl` over the full groups, a chunk of at most `512 / 4` groups a
time, each chunk written once; `fuel` bounds the chunks. -/
def encodeLoop {σ : Type} (write : σ → Bytes → σ) : Nat → Nat → σ → Bytes → σ × Bytes
  | 0, _, out, data => (out, data)
  | fuel + 1, fullGroups, out, data =>
    if fullGroups = 0 then (out, data)
    else
      let chunkGroups := min fullGroups (512 / 4)
      let (buf, data) := encodeChunk chunkGroups data
      encodeLoop write fuel (fullGroups - chunkGroups) (write out buf) data

/-- `encodeImpl(write, in)`. -/
def encodeImpl {σ : Type} (write : σ → Bytes → σ) (out : σ) (input : Bytes) : σ :=
  let (out, data) := encodeLoop write (input.length / 3) (input.length / 3) out input
  match input.length % 3 with
  | 2 => write out (encodeTail2 (data.getD 0 0) (data.getD 1 0))
  | 1 => write out (encodeTail1 (data.getD 0 0))
  | _ => out

/-- `uassert(code, reason, cond)`. -/
def uassert (code : Nat) (reason : String) (cond : Prop) [Decidable cond] : Except Base64Error Unit :=
  if cond then pure () else throw ⟨code, reason⟩

/-- `decodeSextet(x)`. -/
def decodeSextet (x : UInt8) : Except Base64Error Nat := do
  let c := kDecodeTable x
  uassert 40537 "Invalid base64 character" (c ≠ kInvalid)
  pure c

/-- The body of the inner loop of `decodeImpl`: four characters to three octets. -/
def decodeGroup (w x y z : UInt8) : Except Base64Error Bytes := do
  let accum := 0 ||| (← decodeSextet w) <<< (6 * (3 - 0))
  let accum := accum ||| (← decodeSextet x) <<< (6 * (3 - 1))
  let accum := accum ||| (← decodeSextet y) <<< (6 * (3 - 2))
  let accum := accum ||| (← decodeSextet z) <<< (6 * (3 - 3))
  pure [((accum >>> (8 * (2 - 0))) &&& 0xff).toUInt8, ((accum >>> (8 * (2 - 1))) &&& 0xff).toUInt8,
    ((accum >>> (8 * (2 - 2))) &&& 0xff).toUInt8]

/-- The inner loop of `decodeImpl`: `chunkGroups` groups into the buffer, and the characters
left. -/
def decodeChunk : Nat → Bytes → Except Base64Error (Bytes × Bytes)
  | chunkGroups + 1, w :: x :: y :: z :: data => do
    let group ← decodeGroup w x y z
    let (buf, data) ← decodeChunk chunkGroups data
    pure (group ++ buf, data)
  | _, data => pure ([], data)

/-- The outer loop of `decodeImpl` over all groups but the last, a chunk of at most `512 / 3`
groups a time; `fuel` bounds the chunks. -/
def decodeLoop {σ : Type} (write : σ → Bytes → σ) :
    Nat → Nat → σ → Bytes → Except Base64Error (σ × Bytes)
  | 0, _, out, data => pure (out, data)
  | fuel + 1, groups, out, data =>
    if groups = 0 then pure (out, data)
    else do
      let chunkGroups := min groups (512 / 3)
      let (buf, data) ← decodeChunk chunkGroups data
      decodeLoop write fuel (groups - chunkGroups) (write out buf) data

/-- The last group of `decodeImpl`: a `'='` at its end leaves out the last octet, and a second
one before it the octet before that. -/
def decodeLast (w x y z : UInt8) : Except Base64Error Bytes := do
  let nbits : Nat :=
    if z = charByte '=' then (if y = charByte '=' then 24 - 8 - 8 else 24 - 8) else 24
  let accum := 0 ||| (← decodeSextet w) <<< (6 * (3 - 0))
  let accum := accum ||| (← decodeSextet x) <<< (6 * (3 - 1))
  let accum ← if nbits > 6 * 2 then do pure (accum ||| (← decodeSextet y) <<< (6 * (3 - 2)))
    else pure accum
  let accum ← if nbits > 6 * 3 then do pure (accum ||| (← decodeSextet z) <<< (6 * (3 - 3)))
    else pure accum
  -- each store into the `char` buffer keeps the low eight bits
  pure ((if nbits > 8 * 0 then [(accum >>> (8 * (2 - 0))).toUInt8] else []) ++
    (if nbits > 8 * 1 then [(accum >>> (8 * (2 - 1))).toUInt8] else []) ++
    (if nbits > 8 * 2 then [(accum >>> (8 * (2 - 2))).toUInt8] else []))

/-- `decodeImpl(write, in)`. -/
def decodeImpl {σ : Type} (write : σ → Bytes → σ) (out : σ) (input : Bytes) :
    Except Base64Error σ := do
  if input.length = 0 then pure out
  else
    uassert 10270 "invalid base64" (input.length % 4 = 0)
    let (out, data) ← decodeLoop write (input.length / 4 - 1) (input.length / 4 - 1) out input
    let last ← decodeLast (data.getD 0 0) (data.getD 1 0) (data.getD 2 0) (data.getD 3 0)
    pure (write out last)

/-- `encode(in)` into a `std::string`. -/
def encode (input : Bytes) : Bytes := encodeImpl (fun r buf => r ++ buf) [] input

/-- `decode(in)` into a `std::string`. -/
def decode (input : Bytes) : Except Base64Error Bytes := decodeImpl (fun r buf => r ++ buf) [] input

/-- `encode(ss, in)`: the stream gets each chunk written at its end. -/
def encodeToStream (ss : Bytes) (input : Bytes) : Bytes := encodeImpl (fun ss buf => ss ++ buf) ss input

/-- `decode(ss, in)`. -/
def decodeToStream (ss : Bytes) (input : Bytes) : Except Base64Error Bytes :=
  decodeImpl (fun ss buf => ss ++ buf) ss input

/-- `encode(buffer, in)` on a `fmt::memory_buffer`: each chunk is appended. -/
def encodeToBuffer (buffer : Bytes) (input : Bytes) : Bytes :=
  encodeImpl (fun buffer buf => buffer ++ buf) buffer input

/-- `decode(buffer, in)`. -/
def decodeToBuffer (buffer : Bytes) (input : Bytes) : Except Base64Error Bytes :=
  decodeImpl (fun buffer buf => buffer ++ buf) buffer input

/-- `unwindTerminator(it)` of `validate`: one step back over a `'='`. -/
def unwindTerminator (s : Bytes) (it : Nat) : Nat := if s.getD (it - 1) 0 = charByte '=' then it - 1 else it

/-- `validate(s)`: past up to two trailing `'='`, every character is in the table. -/
def validate (s : Bytes) : Bool :=
  if s.length % 4 ≠ 0 then false
  else if s.isEmpty then true
  else
    let e := unwindTerminator s (unwindTerminator s s.length)
    e == (s.take e).findIdx (fun ch => !valid ch)

/-- `encodedLength(inLen)`. -/
def encodedLength (inLen : Nat) : Nat := (inLen + 2) / 3 * 4

example : encode ("Man".toList.map charByte) = "TWFu".toList.map charByte := by decide
example : decode ("TWE=".toList.map charByte) = .ok ("Ma".toList.map charByte) := by decide
example : validate ("TQ==".toList.map charByte) = true := by decide

/-! ### The tables -/

theorem search_go_ne {c : Nat} : ∀ (table : Bytes) (i : Nat), search.go c i table ≠ kInvalid →
    ∃ j < table.length, search.go c i table = i + j ∧ (table.getD j 0).toNat = c
  | [], _, h => absurd rfl h
  | t :: ts, i, h => by
    unfold search.go at h ⊢
    split_ifs with ht
    · exact ⟨0, by simp, rfl, by simpa using ht⟩
    · rw [if_neg ht] at h
      obtain ⟨j, hj, heq, hget⟩ := search_go_ne ts (i + 1) h
      exact ⟨j + 1, by simpa using hj, by rw [heq]; omega, by simpa using hget⟩

/-- A character the decoding table knows is the character of its sextet. -/
theorem encodeSextet_kDecodeTable {w : UInt8} (hw : kDecodeTable w ≠ kInvalid) :
    kDecodeTable w < 64 ∧ encodeSextet (kDecodeTable w) = w := by
  have hs : search kEncodeTable w.toNat ≠ kInvalid := by
    intro h
    apply hw
    rw [kDecodeTable, h]
    rfl
  obtain ⟨j, hj, heq, hget⟩ := search_go_ne kEncodeTable 0 hs
  have hlen : kEncodeTable.length = 64 := by decide
  have hdec : kDecodeTable w = j := by
    unfold kDecodeTable search
    rw [heq, Nat.zero_add]
    simp
    omega
  refine ⟨by omega, ?_⟩
  rw [hdec, encodeSextet, Nat.and_two_pow_sub_one_eq_mod j 6, Nat.mod_eq_of_lt (by omega)]
  exact UInt8.toNat_inj.mp hget

/-- The sextet of an encoded character is the one encoded. -/
theorem kDecodeTable_encodeSextet (v : Nat) : kDecodeTable (encodeSextet v) = v % 64 := by
  have htable : ∀ i < 64, kDecodeTable (kEncodeTable.getD i 0) = i := by decide +kernel
  rw [encodeSextet, Nat.and_two_pow_sub_one_eq_mod v 6]
  exact htable _ (Nat.mod_lt _ (Nat.two_pow_pos 6))

theorem encodeSextet_ne_pad (v : Nat) : encodeSextet v ≠ charByte '=' := by
  have htable : ∀ i < 64, kEncodeTable.getD i 0 ≠ charByte '=' := by decide +kernel
  rw [encodeSextet, Nat.and_two_pow_sub_one_eq_mod v 6]
  exact htable _ (Nat.mod_lt _ (Nat.two_pow_pos 6))

theorem kDecodeTable_pad : kDecodeTable (charByte '=') = kInvalid := by decide

theorem valid_iff (x : UInt8) : valid x = true ↔ kDecodeTable x ≠ kInvalid := by simp [valid]

/-! ### Groups as numbers -/

/-- `x ||| y` is `x + y` when `y` fits below the low zero bits of `x`. -/
theorem or_eq_add {x y k : Nat} (hx : x % 2 ^ k = 0) (hy : y < 2 ^ k) : x ||| y = x + y := by
  have hx' : x = 2 ^ k * (x / 2 ^ k) := (Nat.mul_div_cancel' (Nat.dvd_of_mod_eq_zero hx)).symm
  rw [hx', ← Nat.two_pow_add_eq_or_of_lt hy]

/-- The octets of a group as one number. -/
def octetsValue (a b c : UInt8) : Nat := a.toNat * 65536 + b.toNat * 256 + c.toNat

/-- The sextets of a group as one number. -/
def sextetsValue (s0 s1 s2 s3 : Nat) : Nat := s0 * 262144 + s1 * 4096 + s2 * 64 + s3

/-- The three octets of a number below `2 ^ 24`, as the stores into a `char` keep them. -/
def octets (v : Nat) : Bytes := [(v / 65536).toUInt8, (v / 256).toUInt8, v.toUInt8]

theorem encodeGroup_eq (a b c : UInt8) :
    encodeGroup a b c = [encodeSextet (octetsValue a b c / 262144),
      encodeSextet (octetsValue a b c / 4096), encodeSextet (octetsValue a b c / 64),
      encodeSextet (octetsValue a b c)] := by
  have hb := b.toNat_lt
  have hc := c.toNat_lt
  have hab : a.toNat * 65536 ||| b.toNat * 256 = a.toNat * 65536 + b.toNat * 256 :=
    or_eq_add (k := 16) (by omega) (by omega)
  have habc : a.toNat * 65536 + b.toNat * 256 ||| c.toNat = octetsValue a b c :=
    or_eq_add (k := 8) (by omega) (by omega)
  simp only [encodeGroup, Nat.shiftLeft_eq, Nat.shiftRight_eq_div_pow, Nat.zero_or, Nat.reduceSub,
    Nat.reduceMul, Nat.reducePow, Nat.mul_one, Nat.div_one, hab, habc]

theorem encodeTail2_eq (a b : UInt8) :
    encodeTail2 a b = [encodeSextet (octetsValue a b 0 / 262144),
      encodeSextet (octetsValue a b 0 / 4096), encodeSextet (octetsValue a b 0 / 64), charByte '='] := by
  have hb := b.toNat_lt
  have hab : a.toNat * 65536 ||| b.toNat * 256 = octetsValue a b 0 := by
    rw [or_eq_add (k := 16) (by omega) (by omega)]
    simp [octetsValue]
  simp only [encodeTail2, Nat.shiftLeft_eq, Nat.shiftRight_eq_div_pow, Nat.zero_or, Nat.reduceSub,
    Nat.reduceMul, Nat.reducePow, hab]

theorem encodeTail1_eq (a : UInt8) :
    encodeTail1 a = [encodeSextet (octetsValue a 0 0 / 262144),
      encodeSextet (octetsValue a 0 0 / 4096), charByte '=', charByte '='] := by
  simp [encodeTail1, Nat.shiftLeft_eq, Nat.shiftRight_eq_div_pow, octetsValue]

theorem decodeSextet_eq (x : UInt8) : decodeSextet x =
    if valid x then .ok (kDecodeTable x) else .error ⟨40537, "Invalid base64 character"⟩ := by
  unfold decodeSextet uassert valid
  by_cases h : kDecodeTable x = kInvalid
  · simp only [h, ne_eq, not_true_eq_false, if_false, bne_self_eq_false, Bool.false_eq_true]
    rfl
  · simp only [h, ne_eq, not_false_eq_true, if_true, bne_iff_ne]
    rfl

theorem decodeSextet_of_valid {x : UInt8} (h : valid x = true) :
    decodeSextet x = .ok (kDecodeTable x) := by
  rw [decodeSextet_eq, if_pos h]

theorem decodeSextet_of_not_valid {x : UInt8} (h : valid x = false) :
    decodeSextet x = .error ⟨40537, "Invalid base64 character"⟩ := by
  rw [decodeSextet_eq, if_neg (by simp [h])]

theorem kDecodeTable_lt {x : UInt8} (h : valid x = true) : kDecodeTable x < 64 :=
  (encodeSextet_kDecodeTable ((valid_iff x).mp h)).1

theorem sextets_or {s0 s1 s2 s3 : Nat} (h1 : s1 < 64) (h2 : s2 < 64) (h3 : s3 < 64) :
    (0 ||| s0 * 262144 ||| s1 * 4096 ||| s2 * 64 ||| s3) = sextetsValue s0 s1 s2 s3 := by
  have h01 : s0 * 262144 ||| s1 * 4096 = s0 * 262144 + s1 * 4096 :=
    or_eq_add (k := 18) (by omega) (by omega)
  have h012 : s0 * 262144 + s1 * 4096 ||| s2 * 64 = s0 * 262144 + s1 * 4096 + s2 * 64 :=
    or_eq_add (k := 12) (by omega) (by omega)
  have h0123 : s0 * 262144 + s1 * 4096 + s2 * 64 ||| s3 = sextetsValue s0 s1 s2 s3 :=
    or_eq_add (k := 6) (by omega) (by omega)
  rw [Nat.zero_or, h01, h012, h0123]

theorem toUInt8_eq_of_mod {n : Nat} {a : UInt8} (h : n % 256 = a.toNat) : n.toUInt8 = a := by
  apply UInt8.toNat_inj.mp
  simpa using h

theorem toUInt8_and_ff (n : Nat) : (n &&& 0xff).toUInt8 = n.toUInt8 := by
  apply toUInt8_eq_of_mod
  rw [show (0xff : Nat) = 2 ^ 8 - 1 from rfl, Nat.and_two_pow_sub_one_eq_mod]
  simp

theorem encodeSextet_mod (v : Nat) : encodeSextet v = kEncodeTable.getD (v % 64) 0 := by
  rw [encodeSextet, show (0b111111 : Nat) = 2 ^ 6 - 1 from rfl, Nat.and_two_pow_sub_one_eq_mod]

theorem valid_encodeSextet (v : Nat) : valid (encodeSextet v) = true := by
  rw [valid_iff, kDecodeTable_encodeSextet]
  have := Nat.mod_lt v (show 64 > 0 by omega)
  unfold kInvalid
  omega

/-- A group read back: the octets of its sextets, or the error of its first bad character. -/
theorem decodeGroup_eq (w x y z : UInt8) : decodeGroup w x y z =
    if valid w && valid x && valid y && valid z then
      .ok (octets (sextetsValue (kDecodeTable w) (kDecodeTable x) (kDecodeTable y) (kDecodeTable z)))
    else .error ⟨40537, "Invalid base64 character"⟩ := by
  unfold decodeGroup
  cases hw : valid w
  · simp [decodeSextet_of_not_valid hw]
    rfl
  cases hx : valid x
  · simp [decodeSextet_of_valid hw, decodeSextet_of_not_valid hx]
    rfl
  cases hy : valid y
  · simp [decodeSextet_of_valid hw, decodeSextet_of_valid hx, decodeSextet_of_not_valid hy]
    rfl
  cases hz : valid z
  · simp [decodeSextet_of_valid hw, decodeSextet_of_valid hx, decodeSextet_of_valid hy,
      decodeSextet_of_not_valid hz]
    rfl
  simp only [decodeSextet_of_valid hw, decodeSextet_of_valid hx, decodeSextet_of_valid hy,
    decodeSextet_of_valid hz, Bool.and_self, if_true, bind, Except.bind, Nat.shiftLeft_eq,
    Nat.shiftRight_eq_div_pow, Nat.reduceSub, Nat.reduceMul, Nat.reducePow, Nat.mul_one, Nat.div_one,
    sextets_or (kDecodeTable_lt hx) (kDecodeTable_lt hy) (kDecodeTable_lt hz), toUInt8_and_ff]
  rfl

theorem sextets_or3 {s0 s1 s2 : Nat} (h1 : s1 < 64) (h2 : s2 < 64) :
    (0 ||| s0 * 262144 ||| s1 * 4096 ||| s2 * 64) = sextetsValue s0 s1 s2 0 := by
  have h : (0 ||| s0 * 262144 ||| s1 * 4096 ||| s2 * 64 ||| 0) = sextetsValue s0 s1 s2 0 :=
    sextets_or h1 h2 (show 0 < 64 by omega)
  rwa [Nat.or_zero] at h

theorem sextets_or2 {s0 s1 : Nat} (h1 : s1 < 64) :
    (0 ||| s0 * 262144 ||| s1 * 4096) = sextetsValue s0 s1 0 0 := by
  have h : (0 ||| s0 * 262144 ||| s1 * 4096 ||| 0 * 64) = sextetsValue s0 s1 0 0 :=
    sextets_or3 h1 (show 0 < 64 by omega)
  rwa [Nat.zero_mul, Nat.or_zero] at h

/-- The last group read back: a `'='` at the end keeps the first two octets of three sextets, and
two keep the first octet of two; without one it is read as any other group. -/
theorem decodeLast_eq (w x y z : UInt8) : decodeLast w x y z =
    if z = charByte '=' then
      if y = charByte '=' then
        if valid w && valid x then
          .ok [(sextetsValue (kDecodeTable w) (kDecodeTable x) 0 0 / 65536).toUInt8]
        else .error ⟨40537, "Invalid base64 character"⟩
      else if valid w && valid x && valid y then
        .ok ((octets (sextetsValue (kDecodeTable w) (kDecodeTable x) (kDecodeTable y) 0)).take 2)
      else .error ⟨40537, "Invalid base64 character"⟩
    else decodeGroup w x y z := by
  rw [decodeGroup_eq]
  unfold decodeLast
  by_cases hz : z = charByte '='
  · by_cases hy : y = charByte '='
    · -- two `'='`: one octet
      cases hw : valid w
      · simp [hz, hy, decodeSextet_of_not_valid hw]
        rfl
      cases hx : valid x
      · simp [hz, hy, decodeSextet_of_valid hw, decodeSextet_of_not_valid hx]
        rfl
      simp only [hz, hy, if_true, decodeSextet_of_valid hw, decodeSextet_of_valid hx, Bool.and_self,
        bind, Except.bind, Nat.shiftLeft_eq, Nat.shiftRight_eq_div_pow, Nat.reduceSub, Nat.reduceMul,
        Nat.reducePow, sextets_or2 (kDecodeTable_lt hx)]
      rfl
    · -- one `'='`: two octets
      cases hw : valid w
      · simp [hz, hy, decodeSextet_of_not_valid hw]
        rfl
      cases hx : valid x
      · simp [hz, hy, decodeSextet_of_valid hw, decodeSextet_of_not_valid hx]
        rfl
      cases hy' : valid y
      · simp [hz, hy, decodeSextet_of_valid hw, decodeSextet_of_valid hx,
          decodeSextet_of_not_valid hy']
        rfl
      simp only [hz, hy, if_true, if_false, decodeSextet_of_valid hw, decodeSextet_of_valid hx,
        decodeSextet_of_valid hy', Bool.and_self, bind, Except.bind, Nat.shiftLeft_eq,
        Nat.shiftRight_eq_div_pow, Nat.reduceSub, Nat.reduceMul, Nat.reducePow,
        sextets_or3 (kDecodeTable_lt hx) (kDecodeTable_lt hy')]
      rfl
  · cases hw : valid w
    · simp [hz, decodeSextet_of_not_valid hw]
      rfl
    cases hx : valid x
    · simp [hz, decodeSextet_of_valid hw, decodeSextet_of_not_valid hx]
      rfl
    cases hy : valid y
    · simp [hz, decodeSextet_of_valid hw, decodeSextet_of_valid hx,
        decodeSextet_of_not_valid hy]
      rfl
    cases hz' : valid z
    · simp [hz, decodeSextet_of_valid hw, decodeSextet_of_valid hx,
        decodeSextet_of_valid hy, decodeSextet_of_not_valid hz']
      rfl
    simp only [hz, if_false, decodeSextet_of_valid hw, decodeSextet_of_valid hx, decodeSextet_of_valid hy,
      decodeSextet_of_valid hz', Bool.and_self, if_true, bind, Except.bind, Nat.shiftLeft_eq,
      Nat.shiftRight_eq_div_pow, Nat.reduceSub, Nat.reduceMul, Nat.reducePow, Nat.mul_one,
      Nat.div_one, Nat.reduceGT, pure, Except.pure,
      sextets_or (kDecodeTable_lt hx) (kDecodeTable_lt hy) (kDecodeTable_lt hz')]
    rfl


/-- Octets read back from their sextets are the number the sextets make. -/
theorem octetsValue_octets {v : Nat} (hv : v < 2 ^ 24) :
    octetsValue (v / 65536).toUInt8 (v / 256).toUInt8 v.toUInt8 = v := by
  simp only [octetsValue, Nat.toUInt8_eq, UInt8.toNat_ofNat']
  omega

/-- The sextets of a group, read back, make the number of its octets. -/
theorem sextetsValue_sextets (v : Nat) (hv : v < 2 ^ 24) :
    sextetsValue (v / 262144 % 64) (v / 4096 % 64) (v / 64 % 64) (v % 64) = v := by
  unfold sextetsValue
  omega

theorem decodeGroup_encodeGroup (a b c : UInt8) :
    decodeGroup (encodeSextet (octetsValue a b c / 262144)) (encodeSextet (octetsValue a b c / 4096))
      (encodeSextet (octetsValue a b c / 64)) (encodeSextet (octetsValue a b c)) = .ok [a, b, c] := by
  have ha := a.toNat_lt
  have hb := b.toNat_lt
  have hc := c.toNat_lt
  have hv : octetsValue a b c < 2 ^ 24 := by unfold octetsValue; omega
  rw [decodeGroup_eq]
  simp only [valid_encodeSextet, Bool.and_self, if_true, kDecodeTable_encodeSextet,
    sextetsValue_sextets _ hv, octets]
  refine congrArg Except.ok ?_
  simp only [List.cons.injEq, and_true]
  refine ⟨toUInt8_eq_of_mod ?_, toUInt8_eq_of_mod ?_, toUInt8_eq_of_mod ?_⟩ <;> unfold octetsValue <;> omega

theorem decodeLast_encodeGroup (a b c : UInt8) :
    decodeLast (encodeSextet (octetsValue a b c / 262144)) (encodeSextet (octetsValue a b c / 4096))
      (encodeSextet (octetsValue a b c / 64)) (encodeSextet (octetsValue a b c)) = .ok [a, b, c] := by
  rw [decodeLast_eq, if_neg (encodeSextet_ne_pad _), decodeGroup_encodeGroup]

theorem decodeLast_encodeTail2 (a b : UInt8) :
    decodeLast (encodeSextet (octetsValue a b 0 / 262144)) (encodeSextet (octetsValue a b 0 / 4096))
      (encodeSextet (octetsValue a b 0 / 64)) (charByte '=') = .ok [a, b] := by
  have ha := a.toNat_lt
  have hb := b.toNat_lt
  have hval : octetsValue a b 0 = a.toNat * 65536 + b.toNat * 256 := by simp [octetsValue]
  have hv : sextetsValue (octetsValue a b 0 / 262144 % 64) (octetsValue a b 0 / 4096 % 64)
      (octetsValue a b 0 / 64 % 64) 0 = octetsValue a b 0 := by
    rw [hval]
    unfold sextetsValue
    omega
  rw [decodeLast_eq, if_pos rfl, if_neg (encodeSextet_ne_pad _)]
  simp only [valid_encodeSextet, Bool.and_self, if_true, kDecodeTable_encodeSextet, hv, octets,
    List.take_succ_cons, List.take_zero]
  refine congrArg Except.ok ?_
  simp only [List.cons.injEq, and_true]
  refine ⟨toUInt8_eq_of_mod ?_, toUInt8_eq_of_mod ?_⟩ <;> rw [hval] <;> omega

theorem decodeLast_encodeTail1 (a : UInt8) :
    decodeLast (encodeSextet (octetsValue a 0 0 / 262144)) (encodeSextet (octetsValue a 0 0 / 4096))
      (charByte '=') (charByte '=') = .ok [a] := by
  have ha := a.toNat_lt
  have hval : octetsValue a 0 0 = a.toNat * 65536 := by simp [octetsValue]
  have hv : sextetsValue (octetsValue a 0 0 / 262144 % 64) (octetsValue a 0 0 / 4096 % 64) 0 0 =
      octetsValue a 0 0 := by
    rw [hval]
    unfold sextetsValue
    omega
  rw [decodeLast_eq, if_pos rfl, if_pos rfl]
  simp only [valid_encodeSextet, Bool.and_self, if_true, kDecodeTable_encodeSextet, hv]
  refine congrArg Except.ok ?_
  simp only [List.cons.injEq, and_true]
  exact toUInt8_eq_of_mod (by rw [hval]; omega)

theorem encodeSextet_congr {u v : Nat} (h : u % 64 = v % 64) : encodeSextet u = encodeSextet v := by
  rw [encodeSextet_mod, encodeSextet_mod, h]

/-- A character the table knows is the sextet at its place in any number it starts. -/
theorem encodeSextet_eq_of_valid {w : UInt8} (hw : valid w = true) {u : Nat}
    (h : u % 64 = kDecodeTable w) : encodeSextet u = w := by
  rw [encodeSextet_congr (v := kDecodeTable w) (by rw [h, Nat.mod_eq_of_lt (kDecodeTable_lt hw)])]
  exact (encodeSextet_kDecodeTable ((valid_iff w).mp hw)).2

/-- A group read back and written again is the group it was read from. -/
theorem encodeGroup_of_decodeGroup {w x y z : UInt8} {g : Bytes} (h : decodeGroup w x y z = .ok g) :
    ∃ a b c, g = [a, b, c] ∧ encodeGroup a b c = [w, x, y, z] := by
  rw [decodeGroup_eq] at h
  split_ifs at h with hvalid
  simp only [Bool.and_eq_true] at hvalid
  obtain ⟨⟨⟨hw, hx⟩, hy⟩, hz⟩ := hvalid
  have hw' := kDecodeTable_lt hw
  have hx' := kDecodeTable_lt hx
  have hy' := kDecodeTable_lt hy
  have hz' := kDecodeTable_lt hz
  have hv : sextetsValue (kDecodeTable w) (kDecodeTable x) (kDecodeTable y) (kDecodeTable z) < 2 ^ 24 := by
    unfold sextetsValue
    omega
  refine ⟨_, _, _, (Except.ok.inj h).symm, ?_⟩
  rw [encodeGroup_eq, octetsValue_octets hv]
  simp only [List.cons.injEq, and_true]
  refine ⟨encodeSextet_eq_of_valid hw ?_, encodeSextet_eq_of_valid hx ?_,
    encodeSextet_eq_of_valid hy ?_, encodeSextet_eq_of_valid hz ?_⟩ <;> unfold sextetsValue <;> omega

/-- A last group with one `'='` read back and written again is the group, when the two bits of its
third character that no octet takes are zero. -/
theorem encodeTail2_of_decodeLast {w x y : UInt8} {g : Bytes} (h : decodeLast w x y (charByte '=') = .ok g)
    (hpad : y ≠ charByte '=') (hbits : kDecodeTable y % 4 = 0) :
    ∃ a b, g = [a, b] ∧ encodeTail2 a b = [w, x, y, charByte '='] := by
  rw [decodeLast_eq, if_pos rfl, if_neg hpad] at h
  split_ifs at h with hvalid
  simp only [Bool.and_eq_true] at hvalid
  obtain ⟨⟨hw, hx⟩, hy⟩ := hvalid
  have hw' := kDecodeTable_lt hw
  have hx' := kDecodeTable_lt hx
  have hy' := kDecodeTable_lt hy
  set v := sextetsValue (kDecodeTable w) (kDecodeTable x) (kDecodeTable y) 0 with hvdef
  -- the low byte of the number is zero, so the two octets make all of it
  have hval : octetsValue (v / 65536).toUInt8 (v / 256).toUInt8 0 = v := by
    simp only [octetsValue, Nat.toUInt8_eq, UInt8.toNat_ofNat', hvdef, sextetsValue]
    simp
    omega
  refine ⟨_, _, (Except.ok.inj h).symm, ?_⟩
  rw [encodeTail2_eq, hval]
  simp only [List.cons.injEq, and_true]
  refine ⟨encodeSextet_eq_of_valid hw ?_, encodeSextet_eq_of_valid hx ?_,
    encodeSextet_eq_of_valid hy ?_⟩ <;> rw [hvdef] <;> unfold sextetsValue <;> omega

/-- A last group with two `'='` read back and written again is the group, when the four bits of
its second character that no octet takes are zero. -/
theorem encodeTail1_of_decodeLast {w x : UInt8} {g : Bytes}
    (h : decodeLast w x (charByte '=') (charByte '=') = .ok g) (hbits : kDecodeTable x % 16 = 0) :
    ∃ a, g = [a] ∧ encodeTail1 a = [w, x, charByte '=', charByte '='] := by
  rw [decodeLast_eq, if_pos rfl, if_pos rfl] at h
  split_ifs at h with hvalid
  simp only [Bool.and_eq_true] at hvalid
  obtain ⟨hw, hx⟩ := hvalid
  have hw' := kDecodeTable_lt hw
  have hx' := kDecodeTable_lt hx
  set v := sextetsValue (kDecodeTable w) (kDecodeTable x) 0 0 with hvdef
  have hval : octetsValue (v / 65536).toUInt8 0 0 = v := by
    simp only [octetsValue, Nat.toUInt8_eq, UInt8.toNat_ofNat', hvdef, sextetsValue]
    simp
    omega
  refine ⟨_, (Except.ok.inj h).symm, ?_⟩
  rw [encodeTail1_eq, hval]
  simp only [List.cons.injEq, and_true]
  refine ⟨encodeSextet_eq_of_valid hw ?_, encodeSextet_eq_of_valid hx ?_⟩ <;> rw [hvdef] <;>
    unfold sextetsValue <;> omega

/-! ### Whole inputs, a group at a time -/

/-- The characters of octets, a group of three at a time, with a tail of one or two padded. -/
def encodeGroups : Bytes → Bytes
  | a :: b :: c :: rest => encodeGroup a b c ++ encodeGroups rest
  | [a, b] => encodeTail2 a b
  | [a] => encodeTail1 a
  | [] => []

/-- The octets of full groups of four characters, or the error of the first bad character. -/
def decodeGroups : Bytes → Except Base64Error Bytes
  | w :: x :: y :: z :: rest => do
    let group ← decodeGroup w x y z
    let rest ← decodeGroups rest
    pure (group ++ rest)
  | _ => pure []

/-- What `decodeImpl` reads: nothing from nothing; otherwise a length that is a multiple of four,
the groups before the last read as full groups, and the last by its padding. -/
def decodeAll (input : Bytes) : Except Base64Error Bytes :=
  if input.length = 0 then pure []
  else if input.length % 4 = 0 then do
    let full ← decodeGroups (input.take (input.length - 4))
    let last ← decodeLast (input.getD (input.length - 4) 0) (input.getD (input.length - 3) 0)
      (input.getD (input.length - 2) 0) (input.getD (input.length - 1) 0)
    pure (full ++ last)
  else throw ⟨10270, "invalid base64"⟩

theorem encodeGroups_append : ∀ (l1 l2 : Bytes), l1.length % 3 = 0 →
    encodeGroups (l1 ++ l2) = encodeGroups l1 ++ encodeGroups l2
  | [], _, _ => rfl
  | [_], _, h => absurd h (by simp)
  | [_, _], _, h => absurd h (by simp)
  | a :: b :: c :: rest, l2, h => by
    have h' : rest.length % 3 = 0 := by simp at h; omega
    simp only [List.cons_append, encodeGroups, encodeGroups_append rest l2 h', List.append_assoc]

theorem length_encodeGroups : ∀ (l : Bytes), (encodeGroups l).length = (l.length + 2) / 3 * 4
  | [] => rfl
  | [_] => by simp [encodeGroups, encodeTail1]
  | [_, _] => by simp [encodeGroups, encodeTail2]
  | a :: b :: c :: rest => by
    rw [encodeGroups, List.length_append, length_encodeGroups rest]
    simp [encodeGroup]
    omega

theorem encodeChunk_eq : ∀ (n : Nat) (data : Bytes), 3 * n ≤ data.length →
    encodeChunk n data = (encodeGroups (data.take (3 * n)), data.drop (3 * n))
  | 0, data, _ => by simp [encodeChunk, encodeGroups]
  | n + 1, [], h => absurd h (by simp)
  | n + 1, [_], h => absurd h (by simp; omega)
  | n + 1, [_, _], h => absurd h (by simp; omega)
  | n + 1, a :: b :: c :: data, h => by
    have h' : 3 * n ≤ data.length := by simp at h; omega
    rw [encodeChunk, encodeChunk_eq n data h', show 3 * (n + 1) = 3 * n + 1 + 1 + 1 by omega]
    simp [encodeGroups]

theorem encodeLoop_eq : ∀ (fuel g : Nat) (out data : Bytes), g ≤ fuel → 3 * g ≤ data.length →
    encodeLoop (fun r buf => r ++ buf) fuel g out data =
      (out ++ encodeGroups (data.take (3 * g)), data.drop (3 * g))
  | 0, g, out, data, hg, _ => by
    obtain rfl : g = 0 := by omega
    simp [encodeLoop, encodeGroups]
  | fuel + 1, g, out, data, hg, hlen => by
    rw [encodeLoop]
    split_ifs with h0
    · subst h0
      simp [encodeGroups]
    · -- one chunk of `min g 128` groups, then the rest of the groups
      dsimp only
      rw [encodeChunk_eq _ data (by omega)]
      dsimp only
      rw [encodeLoop_eq fuel _ _ _ (by omega) (by simp; omega), List.drop_drop]
      have hsplit : 3 * g = 3 * min g (512 / 4) + 3 * (g - min g (512 / 4)) := by omega
      rw [hsplit, List.take_add, encodeGroups_append _ _ (by simp; omega), List.append_assoc]

/-- `encodeImpl` with a writer that appends: the groups of the whole input after what was
there. -/
theorem encodeImpl_append (out input : Bytes) :
    encodeImpl (fun r buf => r ++ buf) out input = out ++ encodeGroups input := by
  unfold encodeImpl
  rw [encodeLoop_eq _ _ _ _ le_rfl (by omega)]
  dsimp only
  have hsplit := List.take_append_drop (3 * (input.length / 3)) input
  have hlen : (input.drop (3 * (input.length / 3))).length = input.length % 3 := by simp; omega
  conv_rhs => rw [← hsplit]
  rw [encodeGroups_append _ _ (by simp; omega), ← List.append_assoc]
  generalize input.drop (3 * (input.length / 3)) = rest at hlen ⊢
  rw [← hlen]
  match rest, hlen with
  | [], _ => simp [encodeGroups]
  | [a], _ => rfl
  | [a, b], _ => rfl
  | _ :: _ :: _ :: _, h => exact absurd h (by simp; omega)

theorem decodeGroups_append : ∀ (l1 l2 : Bytes), l1.length % 4 = 0 →
    decodeGroups (l1 ++ l2) = (do
      let r1 ← decodeGroups l1
      let r2 ← decodeGroups l2
      pure (r1 ++ r2))
  | [], l2, _ => by simp [decodeGroups]
  | [_], _, h => absurd h (by simp)
  | [_, _], _, h => absurd h (by simp)
  | [_, _, _], _, h => absurd h (by simp)
  | w :: x :: y :: z :: rest, l2, h => by
    have h' : rest.length % 4 = 0 := by simp at h; omega
    simp only [List.cons_append, decodeGroups, decodeGroups_append rest l2 h', bind_assoc, pure_bind,
      List.append_assoc]

theorem decodeChunk_eq : ∀ (n : Nat) (data : Bytes), 4 * n ≤ data.length →
    decodeChunk n data = (fun buf => (buf, data.drop (4 * n))) <$> decodeGroups (data.take (4 * n))
  | 0, data, _ => by simp [decodeChunk, decodeGroups]
  | n + 1, [], h => absurd h (by simp)
  | n + 1, [_], h => absurd h (by simp; omega)
  | n + 1, [_, _], h => absurd h (by simp; omega)
  | n + 1, [_, _, _], h => absurd h (by simp; omega)
  | n + 1, w :: x :: y :: z :: data, h => by
    have h' : 4 * n ≤ data.length := by simp at h; omega
    rw [decodeChunk, decodeChunk_eq n data h', show 4 * (n + 1) = 4 * n + 1 + 1 + 1 + 1 by omega]
    simp [decodeGroups]

theorem decodeLoop_eq : ∀ (fuel g : Nat) (out data : Bytes), g ≤ fuel → 4 * g ≤ data.length →
    decodeLoop (fun r buf => r ++ buf) fuel g out data =
      (fun r => (out ++ r, data.drop (4 * g))) <$> decodeGroups (data.take (4 * g))
  | 0, g, out, data, hg, _ => by
    obtain rfl : g = 0 := by omega
    simp [decodeLoop, decodeGroups]
  | fuel + 1, g, out, data, hg, hlen => by
    rw [decodeLoop]
    split_ifs with h0
    · subst h0
      simp [decodeGroups]
    · -- one chunk of `min g 170` groups, then the rest of the groups
      have hsplit : 4 * g = 4 * min g (512 / 3) + 4 * (g - min g (512 / 3)) := by omega
      dsimp only
      rw [decodeChunk_eq _ data (by omega), hsplit, List.take_add,
        decodeGroups_append _ _ (by simp; omega)]
      simp only [bind_map_left, map_bind]
      congr 1
      funext buf
      rw [decodeLoop_eq fuel _ _ _ (by omega) (by simp; omega), List.drop_drop]
      simp [List.append_assoc]

/-- `decodeImpl` with a writer that appends: what `decodeAll` reads, after what was there. -/
theorem decodeImpl_append (out input : Bytes) :
    decodeImpl (fun r buf => r ++ buf) out input = (out ++ ·) <$> decodeAll input := by
  unfold decodeImpl decodeAll
  by_cases h0 : input.length = 0
  · simp [h0]
  by_cases h4 : input.length % 4 = 0
  · have hq : 4 * (input.length / 4 - 1) = input.length - 4 := by omega
    simp only [h0, if_false, h4, uassert, if_true, pure_bind]
    rw [decodeLoop_eq _ _ _ _ le_rfl (by omega), hq]
    simp only [bind_map_left, map_bind]
    congr 1
    funext full
    simp [List.getD_eq_getElem?_getD, List.getElem?_drop, show input.length - 4 + 1 = input.length - 3 by omega,
      show input.length - 4 + 2 = input.length - 2 by omega, show input.length - 4 + 3 = input.length - 1 by omega,
      List.append_assoc]
  · simp [h0, h4, uassert]
    rfl

theorem decodeGroups_encodeGroups : ∀ (l : Bytes), l.length % 3 = 0 →
    decodeGroups (encodeGroups l) = .ok l
  | [], _ => rfl
  | [_], h => absurd h (by simp)
  | [_, _], h => absurd h (by simp)
  | a :: b :: c :: rest, h => by
    have h' : rest.length % 3 = 0 := by simp at h; omega
    rw [encodeGroups, encodeGroup_eq]
    simp only [List.cons_append, List.nil_append, decodeGroups, decodeGroup_encodeGroup,
      decodeGroups_encodeGroups rest h']
    rfl

/-- Full groups read back and written again are the groups they were read from. -/
theorem encodeGroups_of_decodeGroups : ∀ (l : Bytes) {r : Bytes}, l.length % 4 = 0 →
    decodeGroups l = .ok r → r.length % 3 = 0 ∧ encodeGroups r = l
  | [], r, _, h => by
    cases (Except.ok.inj h : [] = r)
    exact ⟨rfl, rfl⟩
  | [_], _, h, _ => absurd h (by simp)
  | [_, _], _, h, _ => absurd h (by simp)
  | [_, _, _], _, h, _ => absurd h (by simp)
  | w :: x :: y :: z :: rest, r, hlen, h => by
    have hlen' : rest.length % 4 = 0 := by simp at hlen; omega
    unfold decodeGroups at h
    cases hg : decodeGroup w x y z with
    | error e => simp [hg] at h; cases h
    | ok g =>
      cases hr : decodeGroups rest with
      | error e => simp [hg, hr] at h; cases h
      | ok r' =>
        simp only [hg, hr] at h
        cases (Except.ok.inj h : g ++ r' = r)
        obtain ⟨a, b, c, rfl, henc⟩ := encodeGroup_of_decodeGroup hg
        obtain ⟨hlen3, hrest⟩ := encodeGroups_of_decodeGroups rest hlen' hr
        refine ⟨by simp; omega, ?_⟩
        rw [List.cons_append, List.cons_append, List.cons_append, List.nil_append, encodeGroups, henc,
          hrest]
        rfl

/-- Full groups read back exactly when every character is in the table. -/
theorem decodeGroups_ok_iff : ∀ (l : Bytes), l.length % 4 = 0 →
    ((∃ r, decodeGroups l = .ok r) ↔ ∀ c ∈ l, valid c = true)
  | [], _ => ⟨fun _ => by simp, fun _ => ⟨[], rfl⟩⟩
  | [_], h => absurd h (by simp)
  | [_, _], h => absurd h (by simp)
  | [_, _, _], h => absurd h (by simp)
  | w :: x :: y :: z :: rest, h => by
    have h' : rest.length % 4 = 0 := by simp at h; omega
    have ih := decodeGroups_ok_iff rest h'
    unfold decodeGroups
    rw [decodeGroup_eq]
    by_cases hv : (valid w && valid x && valid y && valid z) = true
    · simp only [Bool.and_eq_true] at hv
      obtain ⟨⟨⟨hw, hx⟩, hy⟩, hz⟩ := hv
      simp only [hw, hx, hy, hz, Bool.and_self, if_true, List.mem_cons, forall_eq_or_imp, true_and]
      rw [← ih]
      constructor
      · rintro ⟨r, hr⟩
        cases hrest : decodeGroups rest with
        | error e => simp [hrest] at hr; cases hr
        | ok r' => exact ⟨r', rfl⟩
      · rintro ⟨r', hr'⟩
        exact ⟨_, by rw [hr']; rfl⟩
    · simp only [hv]
      simp only [Bool.and_eq_true, not_and] at hv
      constructor
      · rintro ⟨r, hr⟩
        cases hr
      · intro hall
        exact absurd (hall z (by simp)) (hv ⟨⟨hall w (by simp), hall x (by simp)⟩, hall y (by simp)⟩)

/-- A last group reads back exactly when the characters it decodes are in the table. -/
theorem decodeLast_ok_iff (w x y z : UInt8) : (∃ r, decodeLast w x y z = .ok r) ↔
    valid w = true ∧ valid x = true ∧ (¬(z = charByte '=' ∧ y = charByte '=') → valid y = true) ∧
      (z ≠ charByte '=' → valid z = true) := by
  rw [decodeLast_eq]
  by_cases hz : z = charByte '='
  · by_cases hy : y = charByte '='
    · simp only [hz, hy, if_true]
      split_ifs with hv <;> simp_all
    · simp only [hz, hy, if_true, if_false]
      split_ifs with hv <;> simp_all
  · simp only [hz, if_false, decodeGroup_eq]
    split_ifs with hv <;> simp_all

/-- An input of a multiple of four characters, not empty, is full groups and a last group. -/
theorem exists_append_four {t : Bytes} (h0 : t.length ≠ 0) (h4 : t.length % 4 = 0) :
    ∃ A w x y z, t = A ++ [w, x, y, z] ∧ A.length % 4 = 0 := by
  have hlast : (t.drop (t.length - 4)).length = 4 := by simp; omega
  have hsplit := List.take_append_drop (t.length - 4) t
  generalize t.drop (t.length - 4) = last at hlast hsplit
  match last, hlast with
  | [w, x, y, z], _ => exact ⟨t.take (t.length - 4), w, x, y, z, hsplit.symm, by simp; omega⟩

theorem decodeAll_append_four {A : Bytes} (hA : A.length % 4 = 0) (w x y z : UInt8) :
    decodeAll (A ++ [w, x, y, z]) = (do
      let full ← decodeGroups A
      let last ← decodeLast w x y z
      pure (full ++ last)) := by
  have hlen : (A ++ [w, x, y, z]).length = A.length + 4 := by simp
  unfold decodeAll
  rw [if_neg (by omega), if_pos (by omega), hlen]
  simp [List.getD_eq_getElem?_getD, show A.length + 4 - 3 = A.length + 1 by omega,
    show A.length + 4 - 2 = A.length + 2 by omega, show A.length + 4 - 1 = A.length + 3 by omega]

/-- The end `validate` checks up to: the last group without its `'='`. -/
theorem unwindTerminator_append_four (A : Bytes) (w x y z : UInt8) :
    unwindTerminator (A ++ [w, x, y, z]) (unwindTerminator (A ++ [w, x, y, z]) (A.length + 4)) =
      A.length + (if z = charByte '=' then (if y = charByte '=' then 2 else 3) else 4) := by
  have hz : (A ++ [w, x, y, z]).getD (A.length + 4 - 1) 0 = z := by
    simp [List.getD_eq_getElem?_getD, show A.length + 4 - 1 = A.length + 3 by omega]
  have hy : (A ++ [w, x, y, z]).getD (A.length + 4 - 1 - 1) 0 = y := by
    simp [List.getD_eq_getElem?_getD]
  by_cases hzpad : z = charByte '='
  · have hfirst : unwindTerminator (A ++ [w, x, y, z]) (A.length + 4) = A.length + 4 - 1 := by
      rw [unwindTerminator, hz, if_pos hzpad]
    rw [hfirst, unwindTerminator, hy, if_pos hzpad]
    split_ifs <;> omega
  · have hfirst : unwindTerminator (A ++ [w, x, y, z]) (A.length + 4) = A.length + 4 := by
      rw [unwindTerminator, hz, if_neg hzpad]
    rw [hfirst, unwindTerminator, hz, if_neg hzpad, if_neg hzpad]

theorem validate_append_four {A : Bytes} (hA : A.length % 4 = 0) (w x y z : UInt8) :
    validate (A ++ [w, x, y, z]) = true ↔ (∀ c ∈ A, valid c = true) ∧ valid w = true ∧
      valid x = true ∧ (¬(z = charByte '=' ∧ y = charByte '=') → valid y = true) ∧
        (z ≠ charByte '=' → valid z = true) := by
  -- every character up to the end `validate` checks is in the table
  have hall : ∀ k ≤ 4, (A.length + k == ((A ++ [w, x, y, z]).take (A.length + k)).findIdx
      (fun ch => !valid ch)) = true ↔ ∀ c ∈ A ++ [w, x, y, z].take k, valid c = true := by
    intro k hk
    have htake : (A ++ [w, x, y, z]).take (A.length + k) = A ++ [w, x, y, z].take k := by
      simp [List.take_append, List.take_of_length_le]
    have hlen : (A ++ [w, x, y, z].take k).length = A.length + k := by simp; omega
    rw [htake, beq_iff_eq, ← hlen, eq_comm, List.findIdx_eq_length]
    simp
  have hlen : (A ++ [w, x, y, z]).length = A.length + 4 := by simp
  have hne : (A ++ [w, x, y, z]).isEmpty = false := by simp
  unfold validate
  rw [hlen, if_neg (by omega), hne, if_neg (by simp)]
  dsimp only
  rw [unwindTerminator_append_four]
  by_cases hzpad : z = charByte '='
  · by_cases hypad : y = charByte '='
    · rw [if_pos hzpad, if_pos hypad, hall 2 (by omega)]
      simp [hzpad, hypad, or_imp, forall_and]
    · rw [if_pos hzpad, if_neg hypad, hall 3 (by omega)]
      simp [hzpad, hypad, or_imp, forall_and]
  · rw [if_neg hzpad, hall 4 (by omega)]
    simp [hzpad, or_imp, forall_and]

theorem append_ok_iff {x y : Except Base64Error Bytes} :
    (∃ r, (do
      let a ← x
      let b ← y
      pure (a ++ b)) = .ok r) ↔ (∃ a, x = .ok a) ∧ ∃ b, y = .ok b := by
  cases x <;> cases y <;> simp [bind, Except.bind, pure, Except.pure]

/-- `validate` accepts exactly the inputs that decode. -/
theorem validate_iff_decodeAll (t : Bytes) : validate t = true ↔ ∃ r, decodeAll t = .ok r := by
  by_cases h0 : t.length = 0
  · obtain rfl := List.eq_nil_of_length_eq_zero h0
    exact ⟨fun _ => ⟨[], rfl⟩, fun _ => rfl⟩
  by_cases h4 : t.length % 4 = 0
  · obtain ⟨A, w, x, y, z, rfl, hA⟩ := exists_append_four h0 h4
    rw [validate_append_four hA, decodeAll_append_four hA, append_ok_iff, decodeGroups_ok_iff A hA,
      decodeLast_ok_iff]
  · have hv : validate t = false := by simp [validate, h4]
    have hd : decodeAll t = throw ⟨10270, "invalid base64"⟩ := by simp [decodeAll, h0, h4]
    rw [hv, hd]
    simp [throw, throwThe, MonadExceptOf.throw]

theorem decodeAll_encodeGroups (s : Bytes) : decodeAll (encodeGroups s) = .ok s := by
  by_cases h0 : s.length = 0
  · obtain rfl := List.eq_nil_of_length_eq_zero h0
    rfl
  -- the full groups, and a last group of one to three octets
  obtain ⟨pre, tail, rfl, hpre, htail⟩ : ∃ pre tail, s = pre ++ tail ∧ pre.length % 3 = 0 ∧
      0 < tail.length ∧ tail.length ≤ 3 :=
    ⟨s.take (3 * ((s.length - 1) / 3)), s.drop (3 * ((s.length - 1) / 3)), (List.take_append_drop _ _).symm,
      by simp; omega, by simp; omega, by simp; omega⟩
  have hlen : (encodeGroups pre).length % 4 = 0 := by rw [length_encodeGroups]; omega
  rw [encodeGroups_append pre tail hpre]
  match tail, htail with
  | [a], _ =>
    rw [encodeGroups, encodeTail1_eq, decodeAll_append_four hlen, decodeGroups_encodeGroups pre hpre,
      decodeLast_encodeTail1]
    rfl
  | [a, b], _ =>
    rw [encodeGroups, encodeTail2_eq, decodeAll_append_four hlen, decodeGroups_encodeGroups pre hpre,
      decodeLast_encodeTail2]
    rfl
  | [a, b, c], _ =>
    rw [encodeGroups, encodeGroups, List.append_nil, encodeGroup_eq, decodeAll_append_four hlen,
      decodeGroups_encodeGroups pre hpre, decodeLast_encodeGroup]
    rfl

/-- The bits of the last character before the padding that no octet takes are zero: the low four
of the second character before `"=="`, and the low two of the third before `"="`. -/
def UnusedBitsZero (t : Bytes) : Prop :=
  (t.getD (t.length - 1) 0 = charByte '=' → t.getD (t.length - 2) 0 = charByte '=' →
    kDecodeTable (t.getD (t.length - 3) 0) % 16 = 0) ∧
  (t.getD (t.length - 1) 0 = charByte '=' → t.getD (t.length - 2) 0 ≠ charByte '=' →
    kDecodeTable (t.getD (t.length - 2) 0) % 4 = 0)

instance (t : Bytes) : Decidable (UnusedBitsZero t) := inferInstanceAs (Decidable (_ ∧ _))

/-- What decodes, written again, is what was read, when the bits no octet takes are zero. -/
theorem encodeGroups_of_decodeAll {t r : Bytes} (h : decodeAll t = .ok r) (hbits : UnusedBitsZero t) :
    encodeGroups r = t := by
  by_cases h0 : t.length = 0
  · obtain rfl := List.eq_nil_of_length_eq_zero h0
    cases (Except.ok.inj h : [] = r)
    rfl
  by_cases h4 : t.length % 4 = 0
  · obtain ⟨A, w, x, y, z, rfl, hA⟩ := exists_append_four h0 h4
    have hz : (A ++ [w, x, y, z]).getD ((A ++ [w, x, y, z]).length - 1) 0 = z := by
      simp [List.getD_eq_getElem?_getD]
    have hy : (A ++ [w, x, y, z]).getD ((A ++ [w, x, y, z]).length - 2) 0 = y := by
      simp [List.getD_eq_getElem?_getD]
    have hx : (A ++ [w, x, y, z]).getD ((A ++ [w, x, y, z]).length - 3) 0 = x := by
      simp [List.getD_eq_getElem?_getD]
    rw [UnusedBitsZero, hz, hy, hx] at hbits
    rw [decodeAll_append_four hA] at h
    cases hfull : decodeGroups A with
    | error e => simp [hfull, bind, Except.bind] at h
    | ok full =>
      cases hlast : decodeLast w x y z with
      | error e => simp [hfull, hlast, bind, Except.bind] at h
      | ok last =>
        have hr : full ++ last = r := by simpa [hfull, hlast, bind, Except.bind, pure, Except.pure] using h
        cases hr
        obtain ⟨hlen3, henc⟩ := encodeGroups_of_decodeGroups A hA hfull
        rw [encodeGroups_append _ _ hlen3, henc]
        congr 1
        by_cases hzpad : z = charByte '='
        · by_cases hypad : y = charByte '='
          · subst hzpad hypad
            obtain ⟨a, rfl, henc1⟩ := encodeTail1_of_decodeLast hlast (hbits.1 rfl rfl)
            rw [encodeGroups, henc1]
          · subst hzpad
            obtain ⟨a, b, rfl, henc2⟩ := encodeTail2_of_decodeLast hlast hypad (hbits.2 rfl hypad)
            rw [encodeGroups, henc2]
        · rw [decodeLast_eq, if_neg hzpad] at hlast
          obtain ⟨a, b, c, rfl, henc3⟩ := encodeGroup_of_decodeGroup hlast
          rw [encodeGroups, encodeGroups, henc3, List.append_nil]
  · have hd : decodeAll t = throw ⟨10270, "invalid base64"⟩ := by simp [decodeAll, h0, h4]
    rw [hd] at h
    cases h

theorem encode_eq (s : Bytes) : encode s = encodeGroups s := by
  rw [encode, encodeImpl_append, List.nil_append]

theorem decode_eq (t : Bytes) : decode t = decodeAll t := by
  rw [decode, decodeImpl_append]
  cases decodeAll t <;> rfl

/-- Encoding gives `encodedLength` characters, four for every three octets begun, that validate and
decode back; `validate` accepts what decodes; what decodes re-encodes to itself when the bits no
octet takes are zero; and the stream and buffer overloads append what the string overloads
return. -/
theorem base64_encode_decode_validate_agree :
    (∀ s : Bytes, (encode s).length = encodedLength s.length ∧
      encodedLength s.length = 4 * (s.length ⌈/⌉ 3) ∧ validate (encode s) = true ∧
        decode (encode s) = .ok s) ∧
    (∀ t : Bytes, validate t = true ↔ ∃ r, decode t = .ok r) ∧
    (∀ t r : Bytes, decode t = .ok r → UnusedBitsZero t → encode r = t) ∧
    (∀ out s : Bytes, encodeToStream out s = out ++ encode s ∧ encodeToBuffer out s = out ++ encode s) ∧
    (∀ out t : Bytes, decodeToStream out t = (out ++ ·) <$> decode t ∧
      decodeToBuffer out t = (out ++ ·) <$> decode t) := by
  refine ⟨fun s => ⟨?_, ?_, ?_, ?_⟩, fun t => ?_, fun t r h hbits => ?_, fun out s => ⟨?_, ?_⟩,
    fun out t => ⟨?_, ?_⟩⟩
  · rw [encode_eq, length_encodeGroups, encodedLength]
  · rw [encodedLength, Nat.ceilDiv_eq_add_pred_div]
    omega
  · rw [validate_iff_decodeAll, encode_eq, decodeAll_encodeGroups]
    exact ⟨s, rfl⟩
  · rw [decode_eq, encode_eq, decodeAll_encodeGroups]
  · rw [validate_iff_decodeAll, decode_eq]
  · rw [decode_eq] at h
    rw [encode_eq, encodeGroups_of_decodeAll h hbits]
  · rw [encodeToStream, encodeImpl_append, encode_eq]
  · rw [encodeToBuffer, encodeImpl_append, encode_eq]
  · rw [decodeToStream, decodeImpl_append, decode_eq]
  · rw [decodeToBuffer, decodeImpl_append, decode_eq]

/-- `"TWE="`, whose `E` has its two low bits zero, decodes to `"Ma"` and re-encodes to itself. -/
theorem base64_reencode_TWE :
    decode ("TWE=".toList.map charByte) = .ok ("Ma".toList.map charByte) ∧
      UnusedBitsZero ("TWE=".toList.map charByte) ∧
        encode ("Ma".toList.map charByte) = "TWE=".toList.map charByte :=
  ⟨by decide, by decide, base64_encode_decode_validate_agree.2.2.1 _ _ (by decide) (by decide)⟩

end Base64

end Mongo
