import Mongo.KeyString.Skip

/-! The discriminator of a query KeyString (`db/storage/key_string.cpp`). `appendDiscriminator`
writes `kLess` or `kGreater` for an exclusive bound, or nothing, and then `kEnd`, all uninverted.
`decodeDiscriminator` steps over the fields with the skipper and reads the byte after the last
one with the ordering bit of the next field: it inverts a discriminator byte back, but not
`kEnd`. So a key with no discriminator whose next field is descending leaves `kEnd` read as
`0xFB`, which the skipper has no case for. -/

namespace Mongo

namespace KeyString

/-- The loop of `decodeDiscriminator` from field `i`. Like `getKeySizeLoop`, it gets fuel one
more than the bytes left, and the skipper twice the bytes left and two more. -/
def decodeDiscriminatorLoop (ord : KeyOrdering) (version : Version) :
    Nat → Nat → List UInt8 → Except KeyStringError Discriminator
  | 0, _, _ => .error .outOfFuel
  | fuel + 1, i, reader =>
    if reader.length = 0 then .ok .kInclusive
    else do
      let invert := (← ord.get i) = -1
      let (ctype, rest) ← readTypeByte invert reader
      if ctype = kLess ∨ ctype = kGreater then
        -- a discriminator byte read with a field's ordering bit is inverted back
        let ctype := if invert then ~~~ctype else ctype
        pure (if ctype = kLess then .kExclusiveBefore else .kExclusiveAfter)
      else if ctype = kEnd then pure .kInclusive
      else
        let rest ← filterKeyFromKeyString (2 * rest.length + 2) ctype rest invert version
        decodeDiscriminatorLoop ord version fuel (i + 1) rest

/-- `decodeDiscriminator(buffer, len, ord, typeBits)`; the type bits are never read. -/
def decodeDiscriminator (buffer : List UInt8) (ord : KeyOrdering) (version : Version) :
    Except KeyStringError Discriminator :=
  decodeDiscriminatorLoop ord version (buffer.length + 1) 0 buffer

/-- `resetToKey(obj, ord, discriminator)`, given the bytes `_appendBsonValue` wrote for the
elements of `obj` (the element encoder is not modelled): the elements, then the discriminator
and `kEnd`. -/
def resetToKeyWithDiscriminator (elementBytes : List UInt8) (d : Discriminator) : List UInt8 :=
  elementBytes ++ appendDiscriminator d

/-- `e` encodes a value of field `i` that the skipper steps over: a type byte, written with the
field's ordering bit, that is neither `kEnd` nor a discriminator, and a body that
`filterKeyFromKeyString` consumes exactly, whatever follows it. -/
def SkipsField (ord : KeyOrdering) (version : Version) (i : Nat) (e : List UInt8) : Prop :=
  ∃ o ctype body, ord.get i = .ok o ∧ e = (if o = -1 then ~~~ctype else ctype) :: body ∧
    ctype ≠ kEnd ∧ ctype ≠ kLess ∧ ctype ≠ kGreater ∧
    ∀ rest, filterKeyFromKeyString (2 * (body ++ rest).length + 2) ctype (body ++ rest) (o = -1)
      version = .ok rest

/-- The encodings of the fields from `i` on, each one stepped over by the skipper. -/
def SkippedFields (ord : KeyOrdering) (version : Version) : Nat → List (List UInt8) → Prop
  | _, [] => True
  | i, e :: es => SkipsField ord version i e ∧ SkippedFields ord version (i + 1) es

variable {ord : KeyOrdering} {version : Version}

theorem SkippedFields.length_le : ∀ {i : Nat} {es : List (List UInt8)},
    SkippedFields ord version i es → es.length ≤ es.flatten.length
  | _, [], _ => Nat.le_refl _
  | _, _ :: _, ⟨⟨_, _, _, _, rfl, _⟩, hes⟩ => by
    have := hes.length_le
    simp only [List.length_cons, List.flatten_cons, List.length_append]
    omega

/-- The loop steps over one field. -/
theorem decodeDiscriminatorLoop_field {i fuel : Nat} {e : List UInt8} (rest : List UInt8)
    (he : SkipsField ord version i e) :
    decodeDiscriminatorLoop ord version (fuel + 1) i (e ++ rest) =
      decodeDiscriminatorLoop ord version fuel (i + 1) rest := by
  obtain ⟨o, ctype, body, ho, rfl, hend, hless, hgreater, hskip⟩ := he
  have hread : readTypeByte (decide (o = -1))
      ((if o = -1 then ~~~ctype else ctype) :: (body ++ rest)) = .ok (ctype, body ++ rest) := by
    by_cases h : o = -1 <;> simp [readTypeByte, h]
  have hbody := hskip rest
  rw [List.length_append] at hbody
  simp [decodeDiscriminatorLoop, ho, hread, hless, hgreater, hend, hbody, bind, Except.bind]

/-- The loop steps over every field, one turn of fuel each. -/
theorem decodeDiscriminatorLoop_fields (tail : List UInt8) :
    ∀ {i fuel : Nat} {es : List (List UInt8)}, SkippedFields ord version i es →
      es.length ≤ fuel →
      decodeDiscriminatorLoop ord version fuel i (es.flatten ++ tail) =
        decodeDiscriminatorLoop ord version (fuel - es.length) (i + es.length) tail
  | _, _, [], _, _ => rfl
  | _, 0, _ :: _, _, hlen => by simp at hlen
  | i, fuel + 1, e :: es, ⟨he, hes⟩, hlen => by
    have hlen' : es.length ≤ fuel := by simpa using hlen
    rw [List.flatten_cons, List.append_assoc, decodeDiscriminatorLoop_field _ he,
      decodeDiscriminatorLoop_fields tail hes hlen']
    congr 1 <;> simp only [List.length_cons] <;> omega

/-- After the fields, the discriminator byte is read and inverted back, but `kEnd` read with a
descending field's bit is `0xFB`, which the skipper has no case for. -/
theorem decodeDiscriminatorLoop_appendDiscriminator {i fuel : Nat} {o : Int}
    (ho : ord.get i = .ok o) (d : Discriminator) :
    decodeDiscriminatorLoop ord version (fuel + 1) i (appendDiscriminator d) =
      if d = .kInclusive ∧ o = -1 then .error .unreachable else .ok d := by
  by_cases hdesc : o = -1
  · cases d <;> simp +decide [decodeDiscriminatorLoop, appendDiscriminator, ho, hdesc, readTypeByte,
      bind, Except.bind, filterKeyFromKeyString, filterScalar_not_kEnd]
  · cases d <;> simp +decide [decodeDiscriminatorLoop, appendDiscriminator, ho, hdesc, readTypeByte,
      bind, Except.bind]

/-- `decodeDiscriminator` of a query key whose fields the skipper steps over returns the key's
discriminator, whatever the direction of the field after the last, except that a key without
one whose next field is descending reaches `MONGO_UNREACHABLE`. -/
theorem decodeDiscriminator_resetToKey (version : Version) (ord : KeyOrdering)
    {elements : List (List UInt8)} (hfields : SkippedFields ord version 0 elements) {o : Int}
    (ho : ord.get elements.length = .ok o) (d : Discriminator) :
    decodeDiscriminator (resetToKeyWithDiscriminator elements.flatten d) ord version =
      if d = .kInclusive ∧ o = -1 then .error .unreachable else .ok d := by
  have hlen := hfields.length_le
  unfold decodeDiscriminator resetToKeyWithDiscriminator
  -- one turn of fuel per field leaves at least one for the discriminator
  have hfuel : (elements.flatten ++ appendDiscriminator d).length + 1 - elements.length =
      elements.flatten.length - elements.length + (appendDiscriminator d).length + 1 := by
    rw [List.length_append]
    omega
  rw [decodeDiscriminatorLoop_fields _ hfields (by rw [List.length_append]; omega), hfuel,
    Nat.zero_add]
  exact decodeDiscriminatorLoop_appendDiscriminator ho d

theorem decodeDiscriminator_resetToKey_empty_descending :
    SkippedFields (⟨1⟩ : KeyOrdering) .V1 0 [] ∧ (⟨1⟩ : KeyOrdering).get 0 = .ok (-1) ∧
      decodeDiscriminator (resetToKeyWithDiscriminator [] .kInclusive) ⟨1⟩ .V1 =
        .error .unreachable :=
  have hfields : SkippedFields (⟨1⟩ : KeyOrdering) .V1 0 [] := trivial
  have ho : (⟨1⟩ : KeyOrdering).get 0 = .ok (-1) := by decide
  ⟨hfields, ho,
    (decodeDiscriminator_resetToKey .V1 ⟨1⟩ hfields ho .kInclusive).trans (if_pos ⟨rfl, rfl⟩)⟩

end KeyString

end Mongo
