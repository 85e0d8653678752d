import Mongo.Binary64

/-! The BSON data model of `bson/bsontypes.h` and `bson/bsonelement.h`, at the level of
values: a BSON element is a field name and a typed value, a BSON object is its list of
elements, and arrays are objects as well (the field names `"0"`, `"1"`, ... are kept as
data, since `BSONElement::compareElements` compares them). `EOO` is the end-of-object marker
and is never the value of an element. -/

namespace Mongo

/-- `BSONType`. -/
inductive BSONType
  | minKey | eoo | numberDouble | string | object | array | binData | undefined | jstOID
  | bool | date | jstNULL | regEx | dbRef | code | symbol | codeWScope | numberInt
  | bsonTimestamp | numberLong | numberDecimal | maxKey
  deriving DecidableEq, Repr

/-- `canonicalizeBSONType`: the types that compare as one sort share a canonical type. -/
@[simp] def canonicalizeBSONType : BSONType → Int
  | .minKey => -1
  | .maxKey => 127
  | .eoo | .undefined => 0
  | .jstNULL => 5
  | .numberDecimal | .numberDouble | .numberInt | .numberLong => 10
  | .string | .symbol => 15
  | .object => 20
  | .array => 25
  | .binData => 30
  | .jstOID => 35
  | .bool => 40
  | .date => 45
  | .bsonTimestamp => 47
  | .regEx => 50
  | .dbRef => 55
  | .code => 60
  | .codeWScope => 65

/-- `OID::kOIDSize`. -/
def kOIDSize : Nat := 12

/-- An `OID`: its twelve bytes. -/
structure OID where
  bytes : Vector UInt8 kOIDSize
  deriving DecidableEq

/-- A `Timestamp`: seconds and increment, compared as the pair `(secs, i)`. -/
structure Timestamp where
  secs : UInt32
  inc : UInt32
  deriving DecidableEq

/-- A `Decimal128`, as the two 64-bit halves of its BID encoding (`Decimal128::Value`). -/
structure Decimal128 where
  high64 : UInt64
  low64 : UInt64
  deriving DecidableEq

/-- The value of a BSON element, one constructor per `BSONType` other than `EOO`. Strings,
field names and binary data are byte lists; an object, an array and the scope of a
code-with-scope value are lists of elements, each a field name and a value. -/
inductive BSONValue
  | minKey
  | maxKey
  | undefined
  | null
  | double (d : Binary64)
  | string (s : List UInt8)
  | object (fields : List (List UInt8 × BSONValue))
  | array (fields : List (List UInt8 × BSONValue))
  | binData (subtype : UInt8) (data : List UInt8)
  | oid (o : OID)
  | bool (b : Bool)
  | date (millis : Int64)
  | regEx (pattern flags : List UInt8)
  | dbRef (ns : List UInt8) (o : OID)
  | code (s : List UInt8)
  | symbol (s : List UInt8)
  | codeWScope (code : List UInt8) (scope : List (List UInt8 × BSONValue))
  | numberInt (i : Int32)
  | timestamp (t : Timestamp)
  | numberLong (l : Int64)
  | numberDecimal (d : Decimal128)

/-- A `BSONElement`: field name and value. -/
abbrev BSONElement := List UInt8 × BSONValue

/-- A `BSONObj`: its elements in order. -/
abbrev BSONObj := List BSONElement

namespace BSONValue

/-- `BSONElement::type`. -/
@[simp] def type : BSONValue → BSONType
  | minKey => .minKey
  | maxKey => .maxKey
  | undefined => .undefined
  | null => .jstNULL
  | double _ => .numberDouble
  | string _ => .string
  | object _ => .object
  | array _ => .array
  | binData _ _ => .binData
  | oid _ => .jstOID
  | bool _ => .bool
  | date _ => .date
  | regEx _ _ => .regEx
  | dbRef _ _ => .dbRef
  | code _ => .code
  | symbol _ => .symbol
  | codeWScope _ _ => .codeWScope
  | numberInt _ => .numberInt
  | timestamp _ => .bsonTimestamp
  | numberLong _ => .numberLong
  | numberDecimal _ => .numberDecimal

/-- `BSONElement::canonicalType`. -/
@[simp] def canonicalType (v : BSONValue) : Int := canonicalizeBSONType v.type

mutual
/-- Nesting depth: 0 for a scalar, one more than the deepest element of an object, array
or code-with-scope scope. -/
def depth : BSONValue → Nat
  | object fs => depthList fs + 1
  | array fs => depthList fs + 1
  | codeWScope _ s => depthList s + 1
  | _ => 0
termination_by structural v => v

/-- The largest depth of the values of a list of elements. -/
def depthList : List (List UInt8 × BSONValue) → Nat
  | [] => 0
  | (_, v) :: fs => max (depth v) (depthList fs)
termination_by structural fs => fs
end

mutual
/-- No `NumberDecimal` occurs in the value, at any depth. -/
def NoDecimal : BSONValue → Prop
  | object fs => NoDecimalList fs
  | array fs => NoDecimalList fs
  | codeWScope _ s => NoDecimalList s
  | numberDecimal _ => False
  | _ => True
termination_by structural v => v

/-- No `NumberDecimal` occurs in the values of a list of elements. -/
def NoDecimalList : List (List UInt8 × BSONValue) → Prop
  | [] => True
  | (_, v) :: fs => NoDecimal v ∧ NoDecimalList fs
termination_by structural fs => fs
end

/-- The exact numeric value of a `NumberInt`, `NumberLong` or `NumberDouble`, in the order
where NaN is below every number. -/
@[simp] def numberValue? : BSONValue → Option ExtNum
  | numberInt i => some (.finite i.toInt)
  | numberLong l => some (.finite l.toInt)
  | double d => some d.toExt
  | _ => none

theorem depthList_cons (n : List UInt8) (v : BSONValue) (fs : List (List UInt8 × BSONValue)) :
    depthList ((n, v) :: fs) = max (depth v) (depthList fs) := by
  simp [depthList]

theorem depth_le_depthList {fs : List (List UInt8 × BSONValue)} {p : List UInt8 × BSONValue}
    (h : p ∈ fs) : depth p.2 ≤ depthList fs := by
  induction fs with
  | nil => simp at h
  | cons q fs ih =>
    obtain ⟨n, v⟩ := q
    rw [depthList_cons]
    rcases List.mem_cons.mp h with rfl | h
    · exact le_max_left _ _
    · exact le_trans (ih h) (le_max_right _ _)

theorem noDecimalList_iff {fs : List (List UInt8 × BSONValue)} :
    NoDecimalList fs ↔ ∀ p ∈ fs, NoDecimal p.2 := by
  induction fs with
  | nil => simp [NoDecimalList]
  | cons q fs ih =>
    obtain ⟨n, v⟩ := q
    simp [NoDecimalList, ih]

end BSONValue

end Mongo
