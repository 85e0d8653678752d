import Mongo.Query.Path

/-! The match expression tree of `db/matcher` and `MatchExpression::optimize`. The tree is built
from `$and`, `$or`, `$nor`, `$not`, the two forms of `$elemMatch`, comparisons, `$in`,
`$regex`, `$exists`, `$type`, `$alwaysTrue` and `$alwaysFalse`. An expression matches a
document (`matchesBSON`) or, below a value `$elemMatch` or a `$not`, one element
(`matchesSingleElement`). A path expression asks the document's element iterator for the
elements its path reaches and matches each of them. The model takes that iterator and PCRE's
partial match as parameters: the results hold for any iterator, and the source's is
`BSONElementIterator.elements`.

`optimize` rewrites the children first, then flattens nested `AND`/`OR`, drops the children
that cannot change the result, collapses lists of one child, and replaces an `$in` of one
equality by an `$eq` and of one regex by a `$regex`. All of that keeps the meaning, except that
`{$in: [null]}` becomes `{$eq: null}`: the `$eq` matches `undefined`, which `null` equals under
the comparison rules, and the `$in` does not. -/

namespace Mongo.Query

open BSONValue

/-- The value an element compares as: `compareElements` treats `EOO` as `undefined`, whose
canonical type it has. -/
def Element.compareValue : Element → BSONValue
  | none => .undefined
  | some v => v

/-! ### Leaves -/

/-- `ComparisonMatchExpression::matchesSingleElement(e)` of an element that may be `EOO`. The
source reads `e` through its canonical type, its `numberDouble` (zero) and `compareElements`,
all as for `undefined`. -/
def ComparisonMatchExpression.matchesElement (ops : Decimal128Ops) (m : ComparisonMatchExpression)
    (e : Element) : Bool :=
  m.matchesSingleElement ops e.compareValue

/-- `pcrecpp::RE::PartialMatch` of a pattern with its flags against a string's bytes. -/
abbrev PcreMatch := List UInt8 → List UInt8 → List UInt8 → Bool

/-- A `RegexMatchExpression`: the pattern and the flags. -/
structure RegexMatchExpression where
  regex : List UInt8
  flags : List UInt8
  deriving DecidableEq

/-- `RegexMatchExpression::matchesSingleElement(e)`: a string or a symbol is searched with the
pattern; a regex matches when its pattern and flags are the same. -/
def RegexMatchExpression.matchesSingleElement (pcre : PcreMatch) (r : RegexMatchExpression) :
    Element → Bool
  | some (.string s) | some (.symbol s) => pcre r.regex r.flags s
  | some (.regEx p f) => r.regex == p && r.flags == f
  | _ => false

/-! ### `$in` -/

section UniqueCopy

variable {α : Type} (equal : α → α → Bool)

/-- The rest of `std::unique_copy(first, last, out, equal)` after `last` was copied: an element
is copied unless it is equal to the last one copied. -/
def uniqueCopyFrom : α → List α → List α
  | _, [] => []
  | last, a :: as => if equal last a then uniqueCopyFrom last as else a :: uniqueCopyFrom a as

/-- `std::unique_copy(first, last, out, equal)`. -/
def uniqueCopy : List α → List α
  | [] => []
  | a :: as => a :: uniqueCopyFrom equal a as

variable {equal}

theorem mem_of_mem_uniqueCopyFrom {last x : α} {as : List α}
    (h : x ∈ uniqueCopyFrom equal last as) : x ∈ as := by
  induction as generalizing last with
  | nil => simp [uniqueCopyFrom] at h
  | cons a as ih =>
    unfold uniqueCopyFrom at h
    split at h
    · exact List.mem_cons_of_mem a (ih h)
    · rcases List.mem_cons.mp h with rfl | h
      · exact List.mem_cons_self
      · exact List.mem_cons_of_mem a (ih h)

theorem mem_of_mem_uniqueCopy {x : α} {as : List α} (h : x ∈ uniqueCopy equal as) : x ∈ as := by
  cases as with
  | nil => simp [uniqueCopy] at h
  | cons a as =>
    rcases List.mem_cons.mp h with rfl | h
    · exact List.mem_cons_self
    · exact List.mem_cons_of_mem a (mem_of_mem_uniqueCopyFrom h)

/-- Every element dropped is equal to one copied before it. -/
theorem exists_uniqueCopyFrom {last x : α} {as : List α} (h : x ∈ as) :
    ∃ y ∈ last :: uniqueCopyFrom equal last as, y = x ∨ equal y x = true := by
  induction as generalizing last with
  | nil => simp at h
  | cons a as ih =>
    unfold uniqueCopyFrom
    split
    · next heq =>
      rcases List.mem_cons.mp h with rfl | h
      · exact ⟨last, List.mem_cons_self, .inr heq⟩
      · exact @ih last h
    · rcases List.mem_cons.mp h with rfl | h
      · exact ⟨x, List.mem_cons_of_mem _ List.mem_cons_self, .inl rfl⟩
      · obtain ⟨y, hy, hxy⟩ := @ih a h
        exact ⟨y, List.mem_cons_of_mem _ hy, hxy⟩

theorem exists_uniqueCopy {x : α} {as : List α} (h : x ∈ as) :
    ∃ y ∈ uniqueCopy equal as, y = x ∨ equal y x = true := by
  cases as with
  | nil => simp at h
  | cons a as =>
    rcases List.mem_cons.mp h with rfl | h
    · exact ⟨x, List.mem_cons_self, .inl rfl⟩
    · exact exists_uniqueCopyFrom h

end UniqueCopy

/-- An `InMatchExpression` after `setEqualities`: the equalities sorted and without equal
neighbours, whether one of them is `null`, and the regexes. The equalities are neither regexes
nor `undefined`. -/
structure InMatchExpression where
  equalitySet : List BSONValue
  regexes : List RegexMatchExpression
  hasNull : Bool
  hasEmptyArray : Bool
  hasNull_iff : hasNull = true ↔ ∃ v ∈ equalitySet, v.type = .jstNULL
  ne_undefined : ∀ v ∈ equalitySet, v.type ≠ .undefined

namespace InMatchExpression

variable (lib : Decimal128Lib)

/-- `_eltCmp.makeLessThan()`: `BSONElementComparator` without field names. -/
def eltLess (a b : BSONValue) : Bool := BSONElement.woCompare lib false ([], a) ([], b) < 0

/-- `_eltCmp.makeEqualTo()`. -/
def eltEqual (a b : BSONValue) : Bool := BSONElement.woCompare lib false ([], a) ([], b) = 0

/-- The checks of `setEqualities` on each equality. -/
def checkEquality (v : BSONValue) : Except String Unit :=
  if v.type = .regEx then throw "InMatchExpression equality cannot be a regex"
  else if v.type = .undefined then throw "InMatchExpression equality cannot be undefined"
  else pure ()

/-- `std::sort` then `std::unique_copy` of the equalities, as `setEqualities` builds
`_equalitySet`. The sort is stable here; `std::sort` may order equal elements either way. -/
def equalitySetOf (equalities : List BSONValue) : List BSONValue :=
  uniqueCopy (eltEqual lib) (equalities.mergeSort fun a b => !eltLess lib b a)

theorem equalitySetOf_singleton (v : BSONValue) : equalitySetOf lib [v] = [v] := by
  simp [equalitySetOf, uniqueCopy, uniqueCopyFrom]

theorem mem_equalitySetOf {v : BSONValue} {equalities : List BSONValue}
    (h : v ∈ equalitySetOf lib equalities) : v ∈ equalities :=
  List.mem_mergeSort.mp (mem_of_mem_uniqueCopy h)

/-- Only `null` is equal to `null`. -/
theorem type_eq_null_of_eltEqual {v w : BSONValue} (hw : w.type = .jstNULL)
    (h : eltEqual lib v w = true) : v.type = .jstNULL := by
  cases w <;> simp at hw
  cases v <;> simp_all [eltEqual, BSONElement.woCompare, compareElements, compareCanonicalTypes]

/-- `equality.type() == Array && equality.Obj().isEmpty()`. -/
def isEmptyArray : BSONValue → Bool
  | .array [] => true
  | _ => false

/-- The checks passed: no equality is `undefined`. -/
theorem ne_undefined_of_forM {equalities : List BSONValue}
    (h : equalities.forM checkEquality = .ok ()) : ∀ v ∈ equalities, v.type ≠ .undefined := by
  induction equalities with
  | nil => simp
  | cons v vs ih =>
    simp only [List.forM, checkEquality] at h
    split_ifs at h with hregex hundef
    · cases h
    · cases h
    · intro w hw
      rcases List.mem_cons.mp hw with rfl | hw
      · exact hundef
      · exact ih h w hw

/-- `setEqualities(equalities)` on an `$in` with the given regexes: each equality is checked,
`_hasNull` and `_hasEmptyArray` are read off them, and the set is built. -/
def setEqualities (equalities : List BSONValue) (regexes : List RegexMatchExpression) :
    Except String InMatchExpression :=
  match h : equalities.forM checkEquality with
  | .error msg => .error msg
  | .ok () => .ok
    { equalitySet := equalitySetOf lib equalities
      regexes := regexes
      hasNull := equalities.any fun v => v.type == .jstNULL
      hasEmptyArray := equalities.any isEmptyArray
      hasNull_iff := by
        simp only [List.any_eq_true, beq_iff_eq]
        constructor
        · rintro ⟨v, hv, hnull⟩
          -- the copy keeps `v` or an element equal to it, which is `null` too
          obtain ⟨w, hw, hwv⟩ :=
            @exists_uniqueCopy _ (eltEqual lib) _ _ (List.mem_mergeSort.mpr hv)
          rcases hwv with rfl | hwv
          · exact ⟨w, hw, hnull⟩
          · exact ⟨w, hw, type_eq_null_of_eltEqual lib hnull hwv⟩
        · rintro ⟨v, hv, hnull⟩
          exact ⟨v, mem_equalitySetOf lib hv, hnull⟩
      ne_undefined := fun v hv => ne_undefined_of_forM h v (mem_equalitySetOf lib hv) }

/-- `contains(e)`: `std::binary_search` over the sorted set, which finds an element that the
comparator puts neither before nor after `e`. -/
def contains (m : InMatchExpression) (e : Element) : Bool :=
  m.equalitySet.any fun x => !eltLess lib x e.compareValue && !eltLess lib e.compareValue x

/-- `InMatchExpression::matchesSingleElement(e)`: a missing field when `null` is listed, an
element of the set, or a match of one of the regexes. -/
def matchesSingleElement (pcre : PcreMatch) (m : InMatchExpression) (e : Element) : Bool :=
  (m.hasNull && e.isNone) || m.contains lib e || m.regexes.any (·.matchesSingleElement pcre e)

end InMatchExpression

/-! ### The tree -/

/-- `MatcherTypeSet`: the `"number"` alias, and the types listed. -/
structure MatcherTypeSet where
  allNumbers : Bool
  bsonTypes : List BSONType

/-- `isNumericBSONType`. -/
def isNumericBSONType : BSONType → Bool
  | .numberInt | .numberLong | .numberDouble | .numberDecimal => true
  | _ => false

/-- `MatcherTypeSet::hasType`. -/
def MatcherTypeSet.hasType (s : MatcherTypeSet) (t : BSONType) : Bool :=
  (s.allNumbers && isNumericBSONType t) || s.bsonTypes.contains t

/-- The `MatchType`s of a `ListOfMatchExpression`. -/
inductive ListOfMatchType
  | and
  | or
  | nor
  deriving DecidableEq, Repr

/-- What `AndMatchExpression`, `OrMatchExpression` and `NorMatchExpression` make of their
children's results. -/
def ListOfMatchType.combine : ListOfMatchType → List Bool → Bool
  | .and, bs => bs.all id
  | .or, bs => bs.any id
  | .nor, bs => !bs.any id

/-- A `MatchExpression` of the kinds the parser builds from `$and`, `$or`, `$nor`, `$not`,
`$elemMatch`, the comparisons, `$in`, `$regex`, `$exists`, `$type`, `$alwaysTrue` and
`$alwaysFalse`. A path is the dotted field path. -/
inductive MatchExpression
  | listOf (matchType : ListOfMatchType) (children : List MatchExpression)
  | not (exp : MatchExpression)
  | elemMatchObject (path : List UInt8) (sub : MatchExpression)
  | elemMatchValue (path : List UInt8) (subs : List MatchExpression)
  | comparison (path : List UInt8) (m : ComparisonMatchExpression)
  | regex (path : List UInt8) (r : RegexMatchExpression)
  | matchIn (path : List UInt8) (m : InMatchExpression)
  | existsMatch (path : List UInt8)
  | typeMatch (path : List UInt8) (typeSet : MatcherTypeSet)
  | alwaysTrue
  | alwaysFalse

/-! ### Matching -/

section Semantics

variable (ops : Decimal128Ops) (pcre : PcreMatch) (iter : BSONObj → ElementPath → List Element)

namespace MatchExpression

/-- `matchesSingleElement` of the expressions without children. -/
def leafMatchesSingleElement : MatchExpression → Element → Bool
  | comparison _ m, x => m.matchesElement ops x
  | regex _ r, x => r.matchesSingleElement pcre x
  | matchIn _ m, x => m.matchesSingleElement ops.toDecimal128Lib pcre x
  | existsMatch _, x => x.isSome
  | typeMatch _ s, x => s.hasType x.type
  | alwaysTrue, _ => true
  | _, _ => false

/-- `PathMatchExpression::matches`: some element the iterator finds on the path matches. -/
def pathMatches (doc : BSONObj) (path : ElementPath) (single : Element → Bool) : Bool :=
  (iter doc path).any single

/-- `ElemMatchObjectMatchExpression::matchesSingleElement`, given how the sub-expression
matches a document: an array one of whose objects or arrays matches. -/
def elemMatchObjectSingle (subMatches : BSONObj → Bool) : Element → Bool
  | some (.array fs) => fs.any fun f =>
    match f.2 with
    | .object d | .array d => subMatches d
    | _ => false
  | _ => false

/-- `ElemMatchValueMatchExpression::matchesSingleElement`, given how all the sub-expressions
match an element: an array one of whose elements they all match. -/
def elemMatchValueSingle (subsMatch : Element → Bool) : Element → Bool
  | some (.array fs) => fs.any fun f => subsMatch (some f.2)
  | _ => false

mutual

/-- `MatchExpression::matchesBSON(doc)`: `matches` on the document. -/
def matchesBSON (doc : BSONObj) : MatchExpression → Bool
  | listOf t cs => t.combine (matchesBSONEach doc cs)
  | not e => !matchesBSON doc e
  | elemMatchObject p sub =>
    pathMatches iter doc (arrayPath p) (elemMatchObjectSingle fun d => matchesBSON d sub)
  | elemMatchValue p subs =>
    pathMatches iter doc (arrayPath p)
      (elemMatchValueSingle fun y => (matchesSingleEach subs y).all id)
  | e@(comparison p _) | e@(regex p _) | e@(matchIn p _) | e@(existsMatch p)
  | e@(typeMatch p _) =>
    pathMatches iter doc (leafPath p) (leafMatchesSingleElement ops pcre e)
  | alwaysTrue => true
  | alwaysFalse => false

/-- `matchesBSON(doc)` of each child. -/
def matchesBSONEach (doc : BSONObj) : List MatchExpression → List Bool
  | [] => []
  | e :: es => matchesBSON doc e :: matchesBSONEach doc es

/-- `MatchExpression::matchesSingleElement(e)`. -/
def matchesSingleElement : MatchExpression → Element → Bool
  | listOf t cs, x => t.combine (matchesSingleEach cs x)
  | not e, x => !matchesSingleElement e x
  | elemMatchObject _ sub, x => elemMatchObjectSingle (fun d => matchesBSON d sub) x
  | elemMatchValue _ subs, x => elemMatchValueSingle (fun y => (matchesSingleEach subs y).all id) x
  | e, x => leafMatchesSingleElement ops pcre e x

/-- `matchesSingleElement(e)` of each child. -/
def matchesSingleEach : List MatchExpression → Element → List Bool
  | [], _ => []
  | e :: es, x => matchesSingleElement e x :: matchesSingleEach es x

end

end MatchExpression

end Semantics

/-! ### `optimize` -/

namespace MatchExpression

/-- `isTriviallyTrue`: `$alwaysTrue`, and an `AND` without children. -/
def isTriviallyTrue : MatchExpression → Bool
  | alwaysTrue => true
  | listOf .and cs => cs.isEmpty
  | _ => false

/-- `isTriviallyFalse`: `$alwaysFalse`, and an `OR` without children. -/
def isTriviallyFalse : MatchExpression → Bool
  | alwaysFalse => true
  | listOf .or cs => cs.isEmpty
  | _ => false

/-- The children of a list expression of type `t`. -/
def childrenOf (t : ListOfMatchType) : MatchExpression → Option (List MatchExpression)
  | listOf t' cs => if t' = t then some cs else none
  | _ => none

/-- The associativity step: the children that are no `t` lists keep their order, and the
children of those that are follow them. -/
def absorb (t : ListOfMatchType) (children : List MatchExpression) : List MatchExpression :=
  children.filter (fun c => (c.childrenOf t).isNone) ++
    children.flatMap fun c => (c.childrenOf t).getD []

/-- The removal of the `$alwaysTrue` children of an `AND` and the `$alwaysFalse` children of
an `OR`. -/
def dropTrivial : ListOfMatchType → List MatchExpression → List MatchExpression
  | .and, cs => cs.filter fun c => !c.isTriviallyTrue
  | .or, cs => cs.filter fun c => !c.isTriviallyFalse
  | .nor, cs => cs

/-- `ListOfMatchExpression::getOptimizer` on the optimized children. -/
def optimizeList (t : ListOfMatchType) (children : List MatchExpression) : MatchExpression :=
  let children := if t = .and ∨ t = .or then absorb t children else children
  let children := dropTrivial t children
  -- an OR with no children is always false
  if children.isEmpty ∧ t = .or then alwaysFalse
  else match children with
    | [c] =>
      match t with
      | .and | .or => c
      | .nor => not c
    | _ =>
      if t = .and ∧ children.any isTriviallyFalse then alwaysFalse
      else if t = .or ∧ children.any isTriviallyTrue then alwaysTrue
      else listOf t children

/-- `InMatchExpression::getOptimizer`: an `$in` of one regex and no equality is that regex, and
one of one equality and no regex is an `$eq`. -/
def optimizeIn (path : List UInt8) (m : InMatchExpression) : MatchExpression :=
  match m.regexes, hset : m.equalitySet with
  | [r], [] => regex path r
  | [], [v] => comparison path ⟨.eq, v, m.ne_undefined v (by simp [hset])⟩
  | _, _ => matchIn path m

mutual

/-- `MatchExpression::optimize`: each expression's optimizer, which optimizes the children
first. The leaves other than `$in` are left as they are. -/
def optimize : MatchExpression → MatchExpression
  | listOf t cs => optimizeList t (optimizeEach cs)
  | not e => not (optimize e)
  | elemMatchObject p sub => elemMatchObject p (optimize sub)
  | elemMatchValue p subs => elemMatchValue p (optimizeEach subs)
  | matchIn p m => optimizeIn p m
  | e => e

/-- `optimize` of each child. -/
def optimizeEach : List MatchExpression → List MatchExpression
  | [] => []
  | e :: es => optimize e :: optimizeEach es

end

end MatchExpression

/-! ### `optimize` keeps the meaning -/

namespace MatchExpression

section Evaluation

variable (ops : Decimal128Ops) (pcre : PcreMatch) (iter : BSONObj → ElementPath → List Element)

@[simp] theorem matchesBSONEach_eq (doc : BSONObj) (cs : List MatchExpression) :
    matchesBSONEach ops pcre iter doc cs = cs.map (matchesBSON ops pcre iter doc) := by
  induction cs with
  | nil => rfl
  | cons c cs ih => simp [matchesBSONEach, ih]

@[simp] theorem matchesSingleEach_eq (cs : List MatchExpression) (x : Element) :
    matchesSingleEach ops pcre iter cs x = cs.map (matchesSingleElement ops pcre iter · x) := by
  induction cs with
  | nil => rfl
  | cons c cs ih => simp [matchesSingleEach, ih]

@[simp] theorem optimizeEach_eq (cs : List MatchExpression) : optimizeEach cs = cs.map optimize := by
  induction cs with
  | nil => rfl
  | cons c cs ih => simp [optimizeEach, ih]

/-- What the list optimizer relies on of a way of matching: `AND`, `OR`, `NOR`, `NOT` and the
constants mean what they mean at the document level and at the element level alike. -/
structure Evaluation (f : MatchExpression → Bool) : Prop where
  listOf : ∀ t cs, f (listOf t cs) = t.combine (cs.map f)
  not : ∀ e, f (not e) = !f e
  alwaysTrue : f alwaysTrue = true
  alwaysFalse : f alwaysFalse = false

theorem evaluation_matchesBSON (doc : BSONObj) : Evaluation (matchesBSON ops pcre iter doc) where
  listOf t cs := by simp [matchesBSON]
  not e := by simp [matchesBSON]
  alwaysTrue := by simp [matchesBSON]
  alwaysFalse := by simp [matchesBSON]

theorem evaluation_matchesSingleElement (x : Element) :
    Evaluation (matchesSingleElement ops pcre iter · x) where
  listOf t cs := by simp [matchesSingleElement]
  not e := by simp [matchesSingleElement]
  alwaysTrue := by simp [matchesSingleElement, leafMatchesSingleElement]
  alwaysFalse := by simp [matchesSingleElement, leafMatchesSingleElement]

end Evaluation

section ListOptimizer

variable {f : MatchExpression → Bool} (hf : Evaluation f)
include hf

theorem Evaluation.of_isTriviallyTrue {c : MatchExpression} (h : c.isTriviallyTrue = true) :
    f c = true := by
  cases c with
  | alwaysTrue => exact hf.alwaysTrue
  | listOf t cs =>
    cases t <;> simp only [isTriviallyTrue, List.isEmpty_iff, Bool.false_eq_true] at h
    simp [h, hf.listOf, ListOfMatchType.combine]
  | _ => simp [isTriviallyTrue] at h

theorem Evaluation.of_isTriviallyFalse {c : MatchExpression} (h : c.isTriviallyFalse = true) :
    f c = false := by
  cases c with
  | alwaysFalse => exact hf.alwaysFalse
  | listOf t cs =>
    cases t <;> simp only [isTriviallyFalse, List.isEmpty_iff, Bool.false_eq_true] at h
    simp [h, hf.listOf, ListOfMatchType.combine]
  | _ => simp [isTriviallyFalse] at h

omit hf in
theorem eq_listOf_of_childrenOf {t : ListOfMatchType} {c : MatchExpression}
    {cs : List MatchExpression} (h : c.childrenOf t = some cs) : c = listOf t cs := by
  cases c <;> simp only [childrenOf, reduceCtorEq] at h
  split_ifs at h with ht
  cases h
  rw [ht]

/-- A child that is a list of type `t` contributes its children's results. -/
theorem Evaluation.of_childrenOf {t : ListOfMatchType} {c : MatchExpression}
    {cs : List MatchExpression} (h : c.childrenOf t = some cs) :
    f c = t.combine (cs.map f) := by
  rw [eq_listOf_of_childrenOf h, hf.listOf]

/-- Flattening an `AND` into an `AND` keeps the conjunction. -/
theorem Evaluation.all_absorb (cs : List MatchExpression) :
    ((absorb .and cs).map f).all id = (cs.map f).all id := by
  rw [Bool.eq_iff_iff]
  simp only [List.all_eq_true, List.mem_map, id_eq, forall_exists_index, and_imp,
    forall_apply_eq_imp_iff₂, absorb, List.mem_append, List.mem_filter, List.mem_flatMap]
  constructor
  · intro h c hc
    cases hch : c.childrenOf .and with
    | none => exact h c (.inl ⟨hc, by simp [hch]⟩)
    | some gs =>
      -- the child's children were checked in its place
      rw [hf.of_childrenOf hch]
      simp only [ListOfMatchType.combine, List.all_map, List.all_eq_true, Function.comp_apply,
        id_eq]
      exact fun g hg => h g (.inr ⟨c, hc, by simp [hch, hg]⟩)
  · rintro h g (⟨hg, -⟩ | ⟨c, hc, hg⟩)
    · exact h g hg
    · cases hch : c.childrenOf .and with
      | none => simp [hch] at hg
      | some gs =>
        have hc' := h c hc
        rw [hf.of_childrenOf hch] at hc'
        simp only [ListOfMatchType.combine, List.all_map, List.all_eq_true, Function.comp_apply,
          id_eq] at hc'
        exact hc' g (by simpa [hch] using hg)

/-- Flattening an `OR` into an `OR` keeps the disjunction. -/
theorem Evaluation.any_absorb (cs : List MatchExpression) :
    ((absorb .or cs).map f).any id = (cs.map f).any id := by
  rw [Bool.eq_iff_iff]
  simp only [List.any_eq_true, List.mem_map, id_eq, exists_exists_and_eq_and, absorb,
    List.mem_append, List.mem_filter, List.mem_flatMap]
  constructor
  · rintro ⟨g, ⟨hg, -⟩ | ⟨c, hc, hg⟩, hfg⟩
    · exact ⟨g, hg, hfg⟩
    · cases hch : c.childrenOf .or with
      | none => simp [hch] at hg
      | some gs =>
        -- the child holds the child of its own that matched
        refine ⟨c, hc, ?_⟩
        rw [hf.of_childrenOf hch]
        simp only [ListOfMatchType.combine, List.any_map, List.any_eq_true, Function.comp_apply,
          id_eq]
        exact ⟨g, by simpa [hch] using hg, hfg⟩
  · rintro ⟨c, hc, hfc⟩
    cases hch : c.childrenOf .or with
    | none => exact ⟨c, .inl ⟨hc, by simp [hch]⟩, hfc⟩
    | some gs =>
      rw [hf.of_childrenOf hch] at hfc
      simp only [ListOfMatchType.combine, List.any_map, List.any_eq_true, Function.comp_apply,
        id_eq] at hfc
      obtain ⟨g, hg, hfg⟩ := hfc
      exact ⟨g, .inr ⟨c, hc, by simp [hch, hg]⟩, hfg⟩

theorem Evaluation.combine_absorb {t : ListOfMatchType} (ht : t = .and ∨ t = .or)
    (cs : List MatchExpression) : t.combine ((absorb t cs).map f) = t.combine (cs.map f) := by
  rcases ht with rfl | rfl
  · exact hf.all_absorb cs
  · exact hf.any_absorb cs

/-- Dropping a child that is always true from an `AND`, or always false from an `OR`, keeps the
result. -/
theorem Evaluation.combine_dropTrivial (t : ListOfMatchType) (cs : List MatchExpression) :
    t.combine ((dropTrivial t cs).map f) = t.combine (cs.map f) := by
  induction cs with
  | nil => cases t <;> rfl
  | cons c cs ih =>
    cases t with
    | and =>
      by_cases hc : c.isTriviallyTrue = true
      · simpa [dropTrivial, ListOfMatchType.combine, hc, hf.of_isTriviallyTrue hc] using ih
      · simp only [dropTrivial, ListOfMatchType.combine, List.filter_cons, hc] at ih ⊢
        simp [ih]
    | or =>
      by_cases hc : c.isTriviallyFalse = true
      · simpa [dropTrivial, ListOfMatchType.combine, hc, hf.of_isTriviallyFalse hc] using ih
      · simp only [dropTrivial, ListOfMatchType.combine, List.filter_cons, hc] at ih ⊢
        simp [ih]
    | nor => rfl

/-- The list optimizer keeps the result of every way of matching that reads `AND`, `OR`,
`NOR`, `NOT` and the constants as the source does. -/
theorem Evaluation.optimizeList (t : ListOfMatchType) (cs : List MatchExpression) :
    f (MatchExpression.optimizeList t cs) = f (.listOf t cs) := by
  -- the children after flattening and dropping combine to the same result
  have key : t.combine ((dropTrivial t
      (if t = .and ∨ t = .or then absorb t cs else cs)).map f) = t.combine (cs.map f) := by
    rw [hf.combine_dropTrivial]
    split_ifs with ht
    · exact hf.combine_absorb ht cs
    · rfl
  rw [hf.listOf, ← key]
  unfold MatchExpression.optimizeList
  dsimp only
  generalize dropTrivial t (if t = .and ∨ t = .or then absorb t cs else cs) = ds
  -- the last tests, on a list that is not a single child
  have hmany : ∀ ds : List MatchExpression,
      f (if t = .and ∧ ds.any isTriviallyFalse then .alwaysFalse
        else if t = .or ∧ ds.any isTriviallyTrue then .alwaysTrue
        else .listOf t ds) = t.combine (ds.map f) := by
    intro ds
    split_ifs with hfalse htrue
    · -- an AND with a child that is always false
      obtain ⟨rfl, hany⟩ := hfalse
      obtain ⟨c, hc, hcf⟩ := List.any_eq_true.mp hany
      rw [hf.alwaysFalse, eq_comm]
      simp only [ListOfMatchType.combine, List.all_map, List.all_eq_false, Function.comp_apply,
        id_eq, Bool.not_eq_true]
      exact ⟨c, hc, hf.of_isTriviallyFalse hcf⟩
    · -- an OR with a child that is always true
      obtain ⟨rfl, hany⟩ := htrue
      obtain ⟨c, hc, hct⟩ := List.any_eq_true.mp hany
      rw [hf.alwaysTrue, eq_comm]
      simp only [ListOfMatchType.combine, List.any_map, List.any_eq_true, Function.comp_apply,
        id_eq]
      exact ⟨c, hc, hf.of_isTriviallyTrue hct⟩
    · exact hf.listOf t ds
  rcases ds with _ | ⟨c, _ | ⟨d, ds⟩⟩
  · -- no child: an empty OR is `$alwaysFalse`
    by_cases hor : t = .or
    · subst hor
      simp [hf.alwaysFalse, ListOfMatchType.combine]
    · simpa [hor] using hmany []
  · -- one child
    cases t <;> simp [hf.not, ListOfMatchType.combine]
  · simpa using hmany (c :: d :: ds)

end ListOptimizer

end MatchExpression

/-! ### The `$in` rewrite -/

section InRewrite

theorem canonicalType_cases (v : BSONValue) :
    v.canonicalType = -1 ∨ v.canonicalType = 0 ∨ v.canonicalType = 5 ∨ 10 ≤ v.canonicalType := by
  cases v <;> simp

theorem canonicalType_eq_zero_iff {v : BSONValue} : v.canonicalType = 0 ↔ v.type = .undefined := by
  cases v <;> simp

theorem canonicalType_eq_five_iff {v : BSONValue} : v.canonicalType = 5 ↔ v.type = .jstNULL := by
  cases v <;> simp

theorem numberDouble_isNaN_of_not_isNumber {ops : Decimal128Ops} {v : BSONValue}
    (h : v.isNumber = false) : (v.numberDouble ops).isNaN = false := by
  cases v <;> simp_all [numberDouble] <;> rfl

variable (lib : Decimal128Lib)

/-- Elements of different canonical types compare by them. -/
theorem woCompare_of_canonicalType_ne {v w : BSONValue} (h : v.canonicalType ≠ w.canonicalType) :
    BSONElement.woCompare lib false ([], v) ([], w) = v.canonicalType - w.canonicalType := by
  have htype : v.type ≠ w.type := fun ht => h (by unfold BSONValue.canonicalType; rw [ht])
  rw [woCompare_pair]
  dsimp only
  rw [if_pos ⟨htype, by omega⟩]

/-- An element of another canonical type is never equivalent to an element of the set. -/
theorem eltEquiv_of_canonicalType_ne {v w : BSONValue} (h : v.canonicalType ≠ w.canonicalType) :
    (!InMatchExpression.eltLess lib v w && !InMatchExpression.eltLess lib w v) = false := by
  simp only [InMatchExpression.eltLess, woCompare_of_canonicalType_ne lib h,
    woCompare_of_canonicalType_ne lib (Ne.symm h)]
  rcases lt_or_gt_of_ne h with hlt | hlt
  · have hneg : v.canonicalType - w.canonicalType < 0 := by omega
    simp only [hneg, decide_true, Bool.not_true, Bool.false_and]
  · have hneg : w.canonicalType - v.canonicalType < 0 := by omega
    simp only [hneg, decide_true, Bool.not_true, Bool.and_false]

/-- Elements of one canonical type are equivalent when they compare equal, the comparison being
antisymmetric there. -/
theorem eltEquiv_of_canonicalType_eq {v w : BSONValue} (h : v.canonicalType = w.canonicalType)
    (hanti : (compareElements lib w v).sign = -(compareElements lib v w).sign) :
    (!InMatchExpression.eltLess lib v w && !InMatchExpression.eltLess lib w v) =
      decide (compareElements lib w v = 0) := by
  simp only [InMatchExpression.eltLess, woCompare_of_canonicalType_eq lib _ _ h,
    woCompare_of_canonicalType_eq lib _ _ h.symm]
  rw [Bool.eq_iff_iff]
  simp only [Bool.and_eq_true, Bool.not_eq_true', decide_eq_false_iff_not, not_lt,
    decide_eq_true_eq]
  constructor
  · rintro ⟨hvw, hwv⟩
    -- both are nonnegative, and of opposite signs
    have : (compareElements lib w v).sign = 0 := by
      have h1 := Int.sign_nonneg_iff.mpr hvw
      have h2 := Int.sign_nonneg_iff.mpr hwv
      omega
    exact Int.sign_eq_zero_iff_zero.mp this
  · intro hz
    have : (compareElements lib v w).sign = 0 := by
      rw [hz, Int.sign_zero] at hanti
      omega
    rw [Int.sign_eq_zero_iff_zero.mp this, hz]
    exact ⟨le_refl _, le_refl _⟩

/-- `compareElements` is antisymmetric in sign on values of one canonical type. The library's
comparisons of decimals are, when it is sound; the other comparisons are by construction. -/
def CompareAntisymm : Prop :=
  ∀ a b : BSONValue, a.canonicalType = b.canonicalType →
    (compareElements lib a b).sign = -(compareElements lib b a).sign

variable {ops : Decimal128Ops} {val : Decimal128 → ExtNum}

/-- `{$eq: v}`, for a `v` other than `null`, matches no value of another canonical type: the
sum of the two canonical types is `5` only for `null` against `undefined`. -/
theorem eq_matchesSingleElement_of_canonicalType_ne {m : ComparisonMatchExpression}
    (heq : m.matchType = .eq) (hnull : m.rhs.type ≠ .jstNULL) {y : BSONValue}
    (h : y.canonicalType ≠ m.rhs.canonicalType) : m.matchesSingleElement ops y = false := by
  have h0 : m.rhs.canonicalType ≠ 0 := fun h0 =>
    m.rhs_ne_undefined (canonicalType_eq_zero_iff.mp h0)
  have h5 : m.rhs.canonicalType ≠ 5 := fun h5 => hnull (canonicalType_eq_five_iff.mp h5)
  have hsum : y.canonicalType + m.rhs.canonicalType ≠ 5 := by
    rcases canonicalType_cases y with hy | hy | hy | hy <;>
      rcases canonicalType_cases m.rhs with hr | hr | hr | hr <;> omega
  unfold ComparisonMatchExpression.matchesSingleElement
  rw [if_pos h, if_neg hsum, heq]
  split_ifs <;> rfl

/-- `{$eq: v}` on a value of `v`'s canonical type, with NaN on either side: it matches when both
are NaN, which is when `compareElements` finds them equal. -/
theorem eq_compareElements_of_nan (hsound : ops.Sound val) {y v : BSONValue}
    (hc : y.canonicalType = v.canonicalType)
    (hnan : ((y.numberDouble ops).isNaN || (v.numberDouble ops).isNaN) = true) :
    decide (compareElements ops.toDecimal128Lib y v = 0) =
      ((y.numberDouble ops).isNaN && (v.numberDouble ops).isNaN) := by
  -- NaN is a number's: both are numbers
  have hy : y.isNumber = true := by
    by_contra hy
    have hv : v.isNumber = false := by
      rw [Bool.eq_false_iff, ne_eq, isNumber_iff_canonicalType, ← hc, ← isNumber_iff_canonicalType]
      exact hy
    rw [numberDouble_isNaN_of_not_isNumber (Bool.eq_false_iff.mpr hy),
      numberDouble_isNaN_of_not_isNumber hv] at hnan
    exact Bool.false_ne_true hnan
  have hv : v.isNumber = true := by
    rw [isNumber_iff_canonicalType, ← hc, ← isNumber_iff_canonicalType]
    exact hy
  have hyN := isNaN_numberDouble_iff hsound hy
  have hvN := isNaN_numberDouble_iff hsound hv
  rw [Bool.or_eq_true, hyN, hvN] at hnan
  have hcmp := ordOfInt_compareElements_of_nan hsound hy hv hnan
  rw [Bool.eq_iff_iff, Bool.and_eq_true, hyN, hvN, decide_eq_true_eq]
  -- equal under `compare` means the same value of `ExtNum`
  rw [← compare_eq_iff_eq (a := (compareElements ops.toDecimal128Lib y v)) (b := 0),
    show compare (compareElements ops.toDecimal128Lib y v) 0 =
      ordOfInt (compareElements ops.toDecimal128Lib y v) from rfl, hcmp, compare_eq_iff_eq]
  constructor
  · intro heq
    rcases hnan with h | h
    · exact ⟨h, heq ▸ h⟩
    · exact ⟨heq ▸ h, h⟩
  · rintro ⟨h1, h2⟩
    rw [h1, h2]

/-- An `$in` of one equality `v` other than `null` and no regex matches as `{$eq: v}`. -/
theorem InMatchExpression.matchesSingleElement_of_single (hsound : ops.Sound val)
    (hanti : CompareAntisymm ops.toDecimal128Lib) (pcre : PcreMatch) {m : InMatchExpression}
    {v : BSONValue} (hset : m.equalitySet = [v]) (hreg : m.regexes = [])
    (hnull : v.type ≠ .jstNULL) (x : Element) :
    m.matchesSingleElement ops.toDecimal128Lib pcre x =
      (⟨.eq, v, m.ne_undefined v (by simp [hset])⟩ : ComparisonMatchExpression).matchesElement
        ops x := by
  have hhasNull : m.hasNull = false := by
    cases h : m.hasNull
    · rfl
    · obtain ⟨w, hw, hwn⟩ := m.hasNull_iff.mp h
      rw [hset, List.mem_singleton] at hw
      exact absurd (hw ▸ hwn) hnull
  unfold InMatchExpression.matchesSingleElement InMatchExpression.contains
    ComparisonMatchExpression.matchesElement
  simp only [hhasNull, hset, hreg, Bool.false_and, Bool.false_or, List.any_cons, List.any_nil,
    Bool.or_false]
  generalize x.compareValue = y
  by_cases hc : y.canonicalType = v.canonicalType
  · rw [eltEquiv_of_canonicalType_eq _ hc.symm (hanti y v hc)]
    unfold ComparisonMatchExpression.matchesSingleElement
    dsimp only
    rw [if_neg (not_not.mpr hc)]
    split_ifs with hnan
    · exact eq_compareElements_of_nan hsound hc hnan
    · rfl
  · rw [eltEquiv_of_canonicalType_ne _ (Ne.symm hc)]
    exact (eq_matchesSingleElement_of_canonicalType_ne rfl hnull hc).symm

end InRewrite

/-! ### The tree -/

/-- The one `$in` the rewrite changes the meaning of: `{$in: [null]}`. -/
def InMatchExpression.isNullEquality (m : InMatchExpression) : Bool :=
  m.regexes.isEmpty &&
    match m.equalitySet with
    | [v] => v.type == .jstNULL
    | _ => false

namespace MatchExpression

mutual

/-- Whether the tree holds an `{$in: [null]}`. -/
def hasNullIn : MatchExpression → Bool
  | listOf _ cs => hasNullInEach cs
  | not e => hasNullIn e
  | elemMatchObject _ sub => hasNullIn sub
  | elemMatchValue _ subs => hasNullInEach subs
  | matchIn _ m => m.isNullEquality
  | _ => false

/-- Whether one of the trees holds an `{$in: [null]}`. -/
def hasNullInEach : List MatchExpression → Bool
  | [] => false
  | e :: es => hasNullIn e || hasNullInEach es

end

section Agree

variable (ops : Decimal128Ops) (pcre : PcreMatch) (iter : BSONObj → ElementPath → List Element)

/-- `e'` matches the same documents and the same elements as `e`. -/
structure Agree (e' e : MatchExpression) : Prop where
  doc : ∀ doc, matchesBSON ops pcre iter doc e' = matchesBSON ops pcre iter doc e
  single : ∀ x, matchesSingleElement ops pcre iter e' x = matchesSingleElement ops pcre iter e x

/-- Each of `es'` matches the same documents and elements as the one of `es` in its place. -/
structure AgreeEach (es' es : List MatchExpression) : Prop where
  doc : ∀ doc, es'.map (matchesBSON ops pcre iter doc) = es.map (matchesBSON ops pcre iter doc)
  single : ∀ x, es'.map (matchesSingleElement ops pcre iter · x) =
    es.map (matchesSingleElement ops pcre iter · x)

end Agree

section Optimize

variable {ops : Decimal128Ops} {val : Decimal128 → ExtNum} (hsound : ops.Sound val)
  (hanti : CompareAntisymm ops.toDecimal128Lib) (pcre : PcreMatch)
  (iter : BSONObj → ElementPath → List Element)

/-- The rewrite of an `$in` is a leaf on the same path. -/
theorem matchesBSON_optimizeIn (doc : BSONObj) (p : List UInt8) (m : InMatchExpression) :
    matchesBSON ops pcre iter doc (optimizeIn p m) =
      pathMatches iter doc (leafPath p) (leafMatchesSingleElement ops pcre (optimizeIn p m)) := by
  unfold optimizeIn
  split <;> rfl

theorem matchesSingleElement_optimizeIn (p : List UInt8) (m : InMatchExpression) :
    matchesSingleElement ops pcre iter (optimizeIn p m) =
      leafMatchesSingleElement ops pcre (optimizeIn p m) := by
  unfold optimizeIn
  split <;> rfl

include hsound hanti in
/-- Every `$in` but `{$in: [null]}` matches as its rewrite. -/
theorem leafMatchesSingleElement_optimizeIn (p : List UInt8) {m : InMatchExpression}
    (hm : m.isNullEquality = false) (x : Element) :
    leafMatchesSingleElement ops pcre (optimizeIn p m) x =
      m.matchesSingleElement ops.toDecimal128Lib pcre x := by
  unfold optimizeIn
  split
  · next r hreg hset =>
    -- one regex: no equality, so no `null` either
    have hhasNull : m.hasNull = false := by
      cases h : m.hasNull
      · rfl
      · obtain ⟨w, hw, -⟩ := m.hasNull_iff.mp h
        simp [hset] at hw
    simp [leafMatchesSingleElement, InMatchExpression.matchesSingleElement,
      InMatchExpression.contains, hhasNull, hset, hreg]
  · next v hreg hset =>
    have hnull : v.type ≠ .jstNULL := by
      intro hv
      simp only [InMatchExpression.isNullEquality, hreg, hset, hv, List.isEmpty_nil, beq_self_eq_true,
        Bool.and_self, Bool.true_eq_false] at hm
    exact (InMatchExpression.matchesSingleElement_of_single hsound hanti pcre hset hreg hnull
      x).symm
  · rfl

mutual

/-- `optimize` keeps the meaning of every tree without an `{$in: [null]}`: by induction over
the tree, with the list optimizer's lemma at the lists and the `$in` lemma at the leaves. -/
theorem agree_optimize (hsound : ops.Sound val) (hanti : CompareAntisymm ops.toDecimal128Lib) :
    (e : MatchExpression) → e.hasNullIn = false →
    Agree ops pcre iter (optimize e) e
  | listOf t cs, h => by
    have ih := agreeEach_optimizeEach hsound hanti cs (by simpa [hasNullIn] using h)
    constructor
    · intro doc
      have hf := evaluation_matchesBSON ops pcre iter doc
      rw [optimize, optimizeEach_eq, hf.optimizeList, hf.listOf, hf.listOf, ih.doc]
    · intro x
      have hf := evaluation_matchesSingleElement ops pcre iter x
      rw [optimize, optimizeEach_eq, hf.optimizeList, hf.listOf, hf.listOf, ih.single]
  | not e, h => by
    have ih := agree_optimize hsound hanti e (by simpa [hasNullIn] using h)
    exact ⟨fun doc => by simp [optimize, matchesBSON, ih.doc],
      fun x => by simp [optimize, matchesSingleElement, ih.single]⟩
  | elemMatchObject p sub, h => by
    have ih := agree_optimize hsound hanti sub (by simpa [hasNullIn] using h)
    -- the sub-expression is matched against the objects of the array
    have hsub : (fun d => matchesBSON ops pcre iter d (optimize sub)) =
        fun d => matchesBSON ops pcre iter d sub := funext ih.doc
    exact ⟨fun doc => by simp only [optimize, matchesBSON, hsub],
      fun x => by simp only [optimize, matchesSingleElement, hsub]⟩
  | elemMatchValue p subs, h => by
    have ih := agreeEach_optimizeEach hsound hanti subs (by simpa [hasNullIn] using h)
    have hsubs : (fun y => (matchesSingleEach ops pcre iter (optimizeEach subs) y).all id) =
        fun y => (matchesSingleEach ops pcre iter subs y).all id := by
      funext y
      rw [matchesSingleEach_eq, matchesSingleEach_eq, optimizeEach_eq, ih.single]
    exact ⟨fun doc => by simp only [optimize, matchesBSON, hsubs],
      fun x => by simp only [optimize, matchesSingleElement, hsubs]⟩
  | matchIn p m, h => by
    have hleaf := leafMatchesSingleElement_optimizeIn hsound hanti pcre p
      (by simpa [hasNullIn] using h)
    constructor
    · intro doc
      rw [optimize, matchesBSON_optimizeIn, funext hleaf]
      rfl
    · intro x
      rw [optimize, matchesSingleElement_optimizeIn, hleaf]
      rfl
  | comparison _ _, _ | regex _ _, _ | existsMatch _, _ | typeMatch _ _, _ | alwaysTrue, _
  | alwaysFalse, _ => ⟨fun _ => rfl, fun _ => rfl⟩

/-- `optimize` keeps the meaning of each tree of a list without an `{$in: [null]}`. -/
theorem agreeEach_optimizeEach (hsound : ops.Sound val) (hanti : CompareAntisymm ops.toDecimal128Lib) :
    (es : List MatchExpression) → hasNullInEach es = false →
    AgreeEach ops pcre iter (es.map optimize) es
  | [], _ => ⟨fun _ => rfl, fun _ => rfl⟩
  | e :: es, h => by
    simp only [hasNullInEach, Bool.or_eq_false_iff] at h
    have ihe := agree_optimize hsound hanti e h.1
    have ihes := agreeEach_optimizeEach hsound hanti es h.2
    exact ⟨fun doc => by simp only [List.map_cons, List.map_map, ihe.doc doc,
        ← ihes.doc doc, List.map_map],
      fun x => by simp only [List.map_cons, ihe.single x, ← ihes.single x, List.map_map]⟩

end

end Optimize

/-! ### `{$in: [null]}` -/

/-- An `$in` of one equality and no regex is rewritten to the `$eq` of it. -/
theorem optimizeIn_of_single {p : List UInt8} {m : InMatchExpression} {v : BSONValue}
    (hset : m.equalitySet = [v]) (hreg : m.regexes = []) :
    optimizeIn p m = comparison p ⟨.eq, v, m.ne_undefined v (by simp [hset])⟩ := by
  unfold optimizeIn
  split
  · next hreg' hset' => simp [hset] at hset'
  · next hset' =>
    rw [hset] at hset'
    cases hset'
    rfl
  · next _ hne =>
    exact (hne v hreg hset).elim

/-- `{path: {$in: [null]}}` as the parser builds it, and its rewrite `{path: {$eq: null}}`,
differ on `undefined`: the `$in` finds no element of its set equal to it, while the `$eq` takes
`null` and `undefined` for equal. They differ on an element below a value `$elemMatch` or a
`$not`, and on every document whose path reaches an `undefined`. -/
theorem optimize_in_null_changes_undefined (ops : Decimal128Ops) (pcre : PcreMatch)
    (iter : BSONObj → ElementPath → List Element) (doc : BSONObj) (path : List UInt8)
    (hdoc : iter doc (leafPath path) = [some .undefined]) :
    ∃ m, InMatchExpression.setEqualities ops.toDecimal128Lib [.null] [] = .ok m ∧
      matchesSingleElement ops pcre iter (matchIn path m) (some .undefined) = false ∧
      matchesSingleElement ops pcre iter (optimize (matchIn path m)) (some .undefined) = true ∧
      matchesBSON ops pcre iter doc (matchIn path m) = false ∧
      matchesBSON ops pcre iter doc (optimize (matchIn path m)) = true := by
  obtain ⟨m, hm⟩ : ∃ m, InMatchExpression.setEqualities ops.toDecimal128Lib [.null] [] = .ok m :=
    ⟨_, rfl⟩
  -- what `setEqualities` built: the set `[null]`, no regex, and `_hasNull`
  have hset : m.equalitySet = [.null] := by
    unfold InMatchExpression.setEqualities at hm
    split at hm
    · cases hm
    · cases hm
      exact InMatchExpression.equalitySetOf_singleton _ _
  have hreg : m.regexes = [] := by
    unfold InMatchExpression.setEqualities at hm
    split at hm
    · cases hm
    · cases hm
      rfl
  have hnull : m.hasNull = true := m.hasNull_iff.mpr ⟨.null, by simp [hset], rfl⟩
  -- the `$in` finds neither a missing field nor an element equal to `undefined`
  have hin : leafMatchesSingleElement ops pcre (matchIn path m) (some .undefined) = false := by
    simp only [leafMatchesSingleElement, InMatchExpression.matchesSingleElement,
      InMatchExpression.contains, hset, hreg, Element.compareValue, List.any_cons, List.any_nil,
      Option.isNone_some, Bool.and_false, Bool.false_or, Bool.or_false]
    exact eltEquiv_of_canonicalType_ne _ (by decide)
  -- the `$eq` takes `undefined` for `null`
  have heq : leafMatchesSingleElement ops pcre (optimize (matchIn path m)) (some .undefined) =
      true := by
    rw [optimize, optimizeIn_of_single hset hreg]
    rfl
  refine ⟨m, hm, hin, ?_, ?_, ?_⟩
  · rw [optimize, matchesSingleElement_optimizeIn, ← optimize]
    exact heq
  · simp only [matchesBSON, pathMatches, hdoc, List.any_cons, List.any_nil, Bool.or_false]
    exact hin
  · rw [optimize, matchesBSON_optimizeIn, pathMatches, hdoc, ← optimize]
    simp only [List.any_cons, List.any_nil, Bool.or_false]
    exact heq

theorem optimize_in_null_changes_undefined_at_a :
    BSONElementIterator.elements [([97], .undefined)] (leafPath [97]) = [some .undefined] ∧
      ∃ m, InMatchExpression.setEqualities
          (⟨fun _ => false, fun _ _ => false, fun _ _ => false, fun _ => ⟨0, 0⟩, fun _ => ⟨0, 0⟩,
            fun _ => (⟨0⟩, false)⟩ : Decimal128Lib) [.null] [] = .ok m ∧
        matchesSingleElement ⟨⟨fun _ => false, fun _ _ => false, fun _ _ => false,
            fun _ => ⟨0, 0⟩, fun _ => ⟨0, 0⟩, fun _ => (⟨0⟩, false)⟩, fun _ => ⟨0⟩⟩
          (fun _ _ _ => false) BSONElementIterator.elements (matchIn [97] m)
          (some .undefined) = false ∧
        matchesSingleElement ⟨⟨fun _ => false, fun _ _ => false, fun _ _ => false,
            fun _ => ⟨0, 0⟩, fun _ => ⟨0, 0⟩, fun _ => (⟨0⟩, false)⟩, fun _ => ⟨0⟩⟩
          (fun _ _ _ => false) BSONElementIterator.elements (optimize (matchIn [97] m))
          (some .undefined) = true ∧
        matchesBSON ⟨⟨fun _ => false, fun _ _ => false, fun _ _ => false,
            fun _ => ⟨0, 0⟩, fun _ => ⟨0, 0⟩, fun _ => (⟨0⟩, false)⟩, fun _ => ⟨0⟩⟩
          (fun _ _ _ => false) BSONElementIterator.elements [([97], .undefined)]
          (matchIn [97] m) = false ∧
        matchesBSON ⟨⟨fun _ => false, fun _ _ => false, fun _ _ => false,
            fun _ => ⟨0, 0⟩, fun _ => ⟨0, 0⟩, fun _ => (⟨0⟩, false)⟩, fun _ => ⟨0⟩⟩
          (fun _ _ _ => false) BSONElementIterator.elements [([97], .undefined)]
          (optimize (matchIn [97] m)) = true := by
  -- `{a: undefined}`: the iterator on `a` yields the one element `undefined`
  have hdoc : BSONElementIterator.elements [([97], .undefined)] (leafPath [97]) =
      [some .undefined] := elements_of_not_array rfl (by simp)
  exact ⟨hdoc, optimize_in_null_changes_undefined
    ⟨⟨fun _ => false, fun _ _ => false, fun _ _ => false, fun _ => ⟨0, 0⟩, fun _ => ⟨0, 0⟩,
      fun _ => (⟨0⟩, false)⟩, fun _ => ⟨0⟩⟩
    (fun _ _ _ => false) BSONElementIterator.elements [([97], .undefined)] [97] hdoc⟩

end MatchExpression

end Mongo.Query
