import Mongo.NumberEdges

/-! `ComparisonMatchExpression` of `db/matcher/expression_leaf.cpp`: the predicates
`{path: {$eq | $lt | $lte | $gt | $gte: rhs}}` on one element. Elements of different canonical
types match only in two cases: `null` against `undefined`, and an operand of `MinKey` or
`MaxKey`. NaN equals NaN and is otherwise unordered. The path is left out. The model works on
the element the path reaches. -/

namespace Mongo.Query

open BSONValue

/-- The `MatchType`s of a `ComparisonMatchExpression`. -/
inductive MatchType
  | eq
  | lt
  | lte
  | gt
  | gte
  deriving DecidableEq, Repr

/-- A `ComparisonMatchExpression`. Its constructor refuses an `undefined` operand. -/
structure ComparisonMatchExpression where
  matchType : MatchType
  rhs : BSONValue
  rhs_ne_undefined : rhs.type ≠ .undefined

namespace ComparisonMatchExpression

/-- The constructor, with its `uassert`. -/
def make (matchType : MatchType) (rhs : BSONValue) : Except String ComparisonMatchExpression :=
  if h : rhs.type = .undefined then throw "cannot compare to undefined" else pure ⟨matchType, rhs, h⟩

/-- The result of a comparison `x` of the element with the operand, read by the match type. -/
def ofCompare (matchType : MatchType) (x : Int) : Bool :=
  match matchType with
  | .lt => decide (x < 0)
  | .lte => decide (x ≤ 0)
  | .eq => decide (x = 0)
  | .gt => decide (0 < x)
  | .gte => decide (0 ≤ x)

/-- `ComparisonMatchExpression::matchesSingleElement(e)`. -/
def matchesSingleElement (ops : Decimal128Ops) (m : ComparisonMatchExpression) (e : BSONValue) :
    Bool :=
  if e.canonicalType ≠ m.rhs.canonicalType then
    -- `jstNULL` and `undefined` are treated the same
    if e.canonicalType + m.rhs.canonicalType = 5 then
      match m.matchType with
      | .eq | .lte | .gte => true
      | .lt | .gt => false
    else if m.rhs.type = .maxKey ∨ m.rhs.type = .minKey then
      match m.matchType with
      | .lt | .lte => m.rhs.type = .maxKey
      | .eq => false
      | .gt | .gte => m.rhs.type = .minKey
    else false
  else if (e.numberDouble ops).isNaN || (m.rhs.numberDouble ops).isNaN then
    -- NaN is equal to NaN but otherwise always compares to false
    let bothNaN := (e.numberDouble ops).isNaN && (m.rhs.numberDouble ops).isNaN
    match m.matchType with
    | .lt | .gt => false
    | .lte | .eq | .gte => bothNaN
  else ofCompare m.matchType (compareElements ops.toDecimal128Lib e m.rhs)

end ComparisonMatchExpression

end Mongo.Query
