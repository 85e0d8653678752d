import Mongo.Query.Match

/-! Path traversal of `db/matcher/path.cpp` and `path_internal.cpp`: the elements a dotted path
reaches in a document, as `BSONElementIterator` yields them.

`getFieldDottedOrArray` follows the path into objects and stops at the first array. From there
the iterator walks the array: where the path ends at it, each element and then the array itself;
where it goes on, the rest of the path in each subdocument, and an element whose index is the
next part of the path. The recursion goes down the document, and the measure of
`iterObj`, `iterFrom`, `inArray` and `offsetMatch` is the depth of what they read.

The array offset each element carries (`Context::arrayOffset`) is left out: matching reads only
the elements. After the subcursor of an index match, the source checks its current element
again, which it has reset to `EOO`; that check holds only for an empty next part of the path,
which no decimal index equals, and the model leaves it out. -/

namespace Mongo.Query

open BSONValue

/-- A `BSONElement` a path reaches: `none` is `EOO`, the element of a missing field. -/
abbrev Element := Option BSONValue

/-- `BSONElement::type`, `EOO` for a missing field. -/
def Element.type : Element → BSONType
  | none => .eoo
  | some v => v.type

/-- `ElementPath::LeafArrayBehavior`: whether the elements of an array the path ends at are
visited too. -/
inductive LeafArrayBehavior
  | kTraverse
  | kNoTraversal
  deriving DecidableEq, Repr

/-- `ElementPath::NonLeafArrayBehavior`: how an array inside the path is entered. -/
inductive NonLeafArrayBehavior
  | kTraverse
  | kNoTraversal
  | kMatchSubpath
  deriving DecidableEq, Repr

/-- `ElementPath`: the dotted path and how arrays on it are read. -/
structure ElementPath where
  fieldRef : List UInt8
  leafArrayBehavior : LeafArrayBehavior
  nonLeafArrayBehavior : NonLeafArrayBehavior
  deriving DecidableEq, Repr

/-- The `ElementPath` of a `LeafMatchExpression`. -/
def leafPath (path : List UInt8) : ElementPath := ⟨path, .kTraverse, .kTraverse⟩

/-- The `ElementPath` of an `ArrayMatchingMatchExpression`. -/
def arrayPath (path : List UInt8) : ElementPath := ⟨path, .kNoTraversal, .kTraverse⟩

/-! ## Parts of a path and lookups -/

/-- `FieldRef::parse(path)`: the parts between the dots, an empty one between two dots or after
a final dot; none for the empty path. -/
def FieldRef.parse (path : List UInt8) : List (List UInt8) :=
  if path.isEmpty then [] else path.splitOn 46

/-- `FieldRef::dottedField(offset)`: the parts from `offset` on, joined by dots. -/
def dottedField (parts : List (List UInt8)) (offset : Nat) : List UInt8 :=
  if offset < parts.length then List.intercalate [46] (parts.drop offset) else []

/-- `isAllDigits(str)`: every byte is an ASCII digit. -/
def isAllDigits (str : List UInt8) : Bool := str.all fun c => 48 ≤ c && c ≤ 57

/-- `BSONObj::getField(name)`: the first element of that name, `EOO` when there is none. -/
def getField (obj : BSONObj) (name : List UInt8) : Element := (obj.find? (·.1 == name)).map (·.2)

/-- The loop of `getFieldDottedOrArray` in the object `curr` from part `partNum`: into objects
while parts remain, stopping at a missing field, at an array, or at a value that is not an
object, which is `EOO` unless it is the last part. -/
def getFieldDottedOrArrayLoop (curr : BSONObj) (partNum : Nat) :
    List (List UInt8) → Element × Nat
  | [] => (none, partNum)
  | part :: rest =>
    match getField curr part with
    | none => (none, partNum)
    | some (.object o) =>
      if rest.isEmpty then (some (.object o), partNum + 1)
      else getFieldDottedOrArrayLoop o (partNum + 1) rest
    | some (.array fs) => (some (.array fs), partNum)
    | some v => (if rest.isEmpty then some v else none, partNum)

/-- `getFieldDottedOrArray(doc, path, &idxPath, startIndex)`: the element and `idxPath`. -/
def getFieldDottedOrArray (doc : BSONObj) (parts : List (List UInt8)) (startIndex : Nat) :
    Element × Nat :=
  if parts.length = startIndex then (getField doc [], startIndex)
  else getFieldDottedOrArrayLoop doc startIndex (parts.drop startIndex)

/-- The depth of an element, `0` for `EOO`. -/
def Element.depth : Element → Nat
  | none => 0
  | some v => v.depth

theorem depth_getField {obj : BSONObj} {name : List UInt8} {v : BSONValue}
    (h : getField obj name = some v) : v.depth ≤ depthList obj := by
  obtain ⟨p, hp, rfl⟩ := Option.map_eq_some_iff.mp h
  exact depth_le_depthList (List.mem_of_find?_eq_some hp)

/-- What `getFieldDottedOrArray` finds lies in the document: it is no deeper than the
document's fields. -/
theorem depth_getFieldDottedOrArrayLoop :
    ∀ (curr : BSONObj) (partNum : Nat) (parts : List (List UInt8)),
      (getFieldDottedOrArrayLoop curr partNum parts).1.depth ≤ depthList curr
  | _, _, [] => Nat.zero_le _
  | curr, partNum, part :: rest => by
    unfold getFieldDottedOrArrayLoop
    split
    · exact Nat.zero_le _
    · next o h =>
      have hd := depth_getField h
      split
      · exact hd
      · -- one level down, inside the object `o`
        have := depth_getFieldDottedOrArrayLoop o (partNum + 1) rest
        simp only [depth] at hd
        omega
    · next fs h => exact depth_getField h
    · next v _ _ h =>
      split
      · exact depth_getField h
      · exact Nat.zero_le _

theorem depth_getFieldDottedOrArray (doc : BSONObj) (parts : List (List UInt8)) (k : Nat) :
    (getFieldDottedOrArray doc parts k).1.depth ≤ depthList doc := by
  unfold getFieldDottedOrArray
  split
  · cases h : getField doc [] with
    | none => exact Nat.zero_le _
    | some v => exact depth_getField h
  · exact depth_getFieldDottedOrArrayLoop doc k _

/-! ## `BSONElementIterator` -/

/-- `BSONElementIterator::ArrayIterationState` as `reset(ref, start)` leaves it: the path from
part `start` on, whether there is any, its first part and whether that part is all digits. -/
structure ArrayIterationState where
  restOfPath : List UInt8
  hasMore : Bool
  nextPieceOfPath : List UInt8
  nextPieceOfPathIsNumber : Bool

namespace ArrayIterationState

/-- `ArrayIterationState::reset(ref, start)`. -/
def reset (parts : List (List UInt8)) (start : Nat) : ArrayIterationState :=
  let restOfPath := dottedField parts start
  if 0 < restOfPath.length then
    ⟨restOfPath, true, parts.getD start [], isAllDigits (parts.getD start [])⟩
  else ⟨restOfPath, false, [], false⟩

/-- `isArrayOffsetMatch(fieldName)`: the next part of the path is this index. -/
def isArrayOffsetMatch (st : ArrayIterationState) (fieldName : List UInt8) : Bool :=
  st.nextPieceOfPathIsNumber && st.nextPieceOfPath == fieldName

/-- `nextEntireRest()`: the next part is the whole rest of the path. -/
def nextEntireRest (st : ArrayIterationState) : Bool :=
  st.nextPieceOfPath.length == st.restOfPath.length

/-- `restOfPath.substr(nextPieceOfPath.size() + 1)`: the path after the next part. -/
def pathAfterNextPiece (st : ArrayIterationState) : List UInt8 :=
  st.restOfPath.drop (st.nextPieceOfPath.length + 1)

end ArrayIterationState

/-- The `_subCursorPath` of a subcursor: `init(rest)`, which traverses arrays inside the path,
with the leaf behaviour of the path. -/
def subPath (rest : List UInt8) (path : ElementPath) : ElementPath :=
  ⟨rest, path.leafArrayBehavior, .kTraverse⟩

mutual

/-- `BSONElementIterator(path, obj)`: the elements it yields, from where `getFieldDottedOrArray`
stops. -/
def iterObj (path : ElementPath) (obj : BSONObj) : List Element :=
  let r := getFieldDottedOrArray obj (FieldRef.parse path.fieldRef) 0
  iterFrom path r.1 r.2
termination_by (8 * depthList obj + 11, 0)
decreasing_by
  have := depth_getFieldDottedOrArray obj (FieldRef.parse path.fieldRef) 0
  simp only [Prod.lex_def]
  omega

/-- The iterator from `BEGIN` at `_traversalStart` with `_traversalStartIndex`: a value that is
not an array is the one element; an array is entered unless the path forbids it. -/
def iterFrom (path : ElementPath) (start : Element) (idx : Nat) : List Element :=
  match start with
  | some (.array fs) =>
    let st := ArrayIterationState.reset (FieldRef.parse path.fieldRef) (idx + 1)
    if st.hasMore && path.nonLeafArrayBehavior != .kTraverse then
      if path.nonLeafArrayBehavior == .kMatchSubpath then [start] else []
    else if !st.hasMore && path.leafArrayBehavior == .kNoTraversal then [start]
    -- `IN_ARRAY`, then the array itself when the path ends at it
    else inArray path st fs ++ (if st.hasMore then [] else [start])
  | _ => [start]
termination_by (8 * start.depth + 2, 0)
decreasing_by
  simp only [Prod.lex_def, Element.depth, depth]
  omega

/-- The `IN_ARRAY` loop of `more()` over the elements of an array. -/
def inArray (path : ElementPath) (st : ArrayIterationState) : BSONObj → List Element
  | [] => []
  | (name, v) :: rest =>
    -- the path ends at this array: the element
    if !st.hasMore then some v :: inArray path st rest
    else
      match v with
      | .object o =>
        -- the subdocument on the rest of the path, then what its index matches
        iterObj (subPath st.restOfPath path) o ++ offsetMatch path st name o ++
          inArray path st rest
      | .array afs =>
        if st.isArrayOffsetMatch name then
          if st.nextEntireRest then some v :: inArray path st rest
          else
            -- a nested array at the index: a subcursor that starts `IN_ARRAY` on it
            let sub := subPath st.pathAfterNextPiece path
            let st' := ArrayIterationState.reset (FieldRef.parse sub.fieldRef) 0
            (inArray sub st' afs ++ (if st'.hasMore then [] else [some v])) ++
              inArray path st rest
        else inArray path st rest
      | _ =>
        if st.isArrayOffsetMatch name && st.nextEntireRest then some v :: inArray path st rest
        else inArray path st rest
termination_by fs => (8 * depthList fs + 4, fs.length)
decreasing_by
  all_goals
    simp only [Prod.lex_def, depthList_cons, depth, List.length_cons]
    omega

/-- What `subCursorHasMore` yields once the subcursor on the subdocument `o` at index `name` is
exhausted: where that index is the next part of the path, the element itself if the part ends
the path, else the subdocument on the path after the part. -/
def offsetMatch (path : ElementPath) (st : ArrayIterationState) (name : List UInt8)
    (o : BSONObj) : List Element :=
  if st.isArrayOffsetMatch name then
    if st.nextEntireRest then [some (.object o)]
    else iterObj (subPath st.pathAfterNextPiece path) o
  else []
termination_by (8 * depthList o + 12, 0)
decreasing_by
  simp only [Prod.lex_def]
  omega

end

/-- `BSONElementIterator(&path, doc)`, run to the end: the elements it yields in order. -/
def BSONElementIterator.elements (doc : BSONObj) (path : ElementPath) : List Element :=
  iterObj path doc

/-- A path on which `getFieldDottedOrArray` meets no array yields the one element it finds,
`EOO` included. -/
theorem elements_of_not_array {doc : BSONObj} {path : ElementPath} {e : Element}
    (he : (getFieldDottedOrArray doc (FieldRef.parse path.fieldRef) 0).1 = e)
    (h : ∀ fs, e ≠ some (.array fs)) :
    BSONElementIterator.elements doc path = [e] := by
  subst he
  rw [BSONElementIterator.elements, iterObj]
  generalize (getFieldDottedOrArray doc (FieldRef.parse path.fieldRef) 0) = r at h ⊢
  obtain ⟨start, idx⟩ := r
  dsimp only at h ⊢
  -- the catch-all branch of `iterFrom`: its side condition is `h`
  rw [iterFrom]
  exact fun fs hfs => h fs hfs

/-- Where the path ends at the array, `IN_ARRAY` yields each element of it. -/
theorem inArray_of_not_hasMore (path : ElementPath) {st : ArrayIterationState}
    (h : st.hasMore = false) :
    ∀ fs : BSONObj, inArray path st fs = fs.map (some ·.2)
  | [] => by rw [inArray, List.map_nil]
  | (name, v) :: rest => by
    rw [inArray.eq_def]
    simp only [h, Bool.not_false, if_true, inArray_of_not_hasMore path h rest, List.map_cons]

/-- Where the next part of the path is not an index, `IN_ARRAY` yields what the rest of the path
reaches in each subdocument of the array, and nothing of its other elements. -/
theorem inArray_of_not_number (path : ElementPath) {st : ArrayIterationState}
    (hmore : st.hasMore = true) (hnum : st.nextPieceOfPathIsNumber = false) :
    ∀ fs : BSONObj, inArray path st fs = fs.flatMap fun p =>
      match p.2 with
      | .object o => iterObj (subPath st.restOfPath path) o
      | _ => []
  | [] => by rw [inArray, List.flatMap_nil]
  | (name, v) :: rest => by
    have hoff : st.isArrayOffsetMatch name = false := by
      simp only [ArrayIterationState.isArrayOffsetMatch, hnum, Bool.false_and]
    have ih := inArray_of_not_number path hmore hnum rest
    rw [inArray.eq_def]
    simp only [hmore, Bool.not_true, Bool.false_eq_true, if_false, List.flatMap_cons]
    -- one case for each kind of element the loop tells apart
    cases v with
    | object o => simp only [offsetMatch, hoff, Bool.false_eq_true, if_false, ih, List.append_nil]
    | array afs => simp only [hoff, Bool.false_eq_true, if_false, ih, List.nil_append]
    | _ => simp only [hoff, Bool.false_and, Bool.false_eq_true, if_false, ih, List.nil_append]

/-- A path that ends at an array, read with `kTraverse` for leaf arrays: each element of the
array, then the array itself. -/
theorem elements_of_leaf_array {doc : BSONObj} {path : ElementPath} {fs : BSONObj} {idx : Nat}
    (hget : getFieldDottedOrArray doc (FieldRef.parse path.fieldRef) 0 = (some (.array fs), idx))
    (hlast : (FieldRef.parse path.fieldRef).length ≤ idx + 1)
    (hleaf : path.leafArrayBehavior = .kTraverse) :
    BSONElementIterator.elements doc path = fs.map (some ·.2) ++ [some (.array fs)] := by
  -- no part of the path follows the array: `reset` finds no rest
  have hrest : (ArrayIterationState.reset (FieldRef.parse path.fieldRef) (idx + 1)).hasMore =
      false := by
    simp only [ArrayIterationState.reset, dottedField, if_neg (Nat.not_lt.mpr hlast),
      List.length_nil, Nat.lt_irrefl, if_false]
  rw [BSONElementIterator.elements, iterObj, hget]
  dsimp only
  rw [iterFrom]
  simp only [hrest, Bool.false_and, Bool.false_eq_true, if_false, Bool.not_false, hleaf,
    Bool.true_and, inArray_of_not_hasMore path hrest]
  rfl

/-- A path that goes on past an array with a part that is not an index: what the rest of the
path reaches in each subdocument of the array, in order. -/
theorem elements_of_array_not_number {doc : BSONObj} {path : ElementPath} {fs : BSONObj}
    {idx : Nat}
    (hget : getFieldDottedOrArray doc (FieldRef.parse path.fieldRef) 0 = (some (.array fs), idx))
    (hmore : (ArrayIterationState.reset (FieldRef.parse path.fieldRef) (idx + 1)).hasMore = true)
    (hnum : (ArrayIterationState.reset (FieldRef.parse path.fieldRef)
      (idx + 1)).nextPieceOfPathIsNumber = false)
    (hnonleaf : path.nonLeafArrayBehavior = .kTraverse) :
    BSONElementIterator.elements doc path = fs.flatMap fun p =>
      match p.2 with
      | .object o => BSONElementIterator.elements o (subPath
          (ArrayIterationState.reset (FieldRef.parse path.fieldRef) (idx + 1)).restOfPath path)
      | _ => [] := by
  rw [BSONElementIterator.elements, iterObj, hget]
  dsimp only
  rw [iterFrom]
  simp only [hmore, hnonleaf, bne_self_eq_false, Bool.and_false, Bool.false_eq_true, if_false,
    Bool.not_true, Bool.false_and, inArray_of_not_number path hmore hnum, if_true,
    List.append_nil]
  rfl

end Mongo.Query
