import Mongo.Biggie.WellFormed

/-! `lower_bound` and `upper_bound` of `RadixStore` (`db/storage/biggie/store.h`). The search
walks down the trie along the key and records in `context` each node passed, with the slot
after the key's byte from which a larger key may start; a key byte `0xFF` records nothing,
since no slot follows it. When the key ends exactly at an inner node, the search rewrites
`context.back()` to search all of that node's children. If every byte of the key was `0xFF`
(the empty key included), nothing was recorded, and `back()` of the empty vector is undefined
behaviour; the model returns `none` there. -/

namespace Mongo.Biggie

open NodePtr

variable {T : Type}

namespace NodePtr

/-- The height of a tree: a null pointer has height zero. -/
def height : NodePtr T → Nat
  | null => 0
  | node _ _ _ _ cs => (allBytes.map fun c => (cs c).height).foldr max 0 + 1

/-- A child is lower than its parent. -/
theorem height_children_lt {n : NodePtr T} (hn : n.isNull = false) (c : UInt8) :
    (n.children c).height < n.height := by
  cases n with
  | null => simp at hn
  | node i d tk dt cs =>
    -- the child's height is one of the values the maximum runs over
    have hle : ∀ l : List Nat, ∀ x ∈ l, x ≤ l.foldr max 0 := by
      intro l
      induction l with
      | nil => simp
      | cons y ys ih =>
        intro x hx
        rcases List.mem_cons.mp hx with rfl | hx
        · exact Nat.le_max_left _ _
        · exact Nat.le_trans (ih x hx) (Nat.le_max_right _ _)
    have := hle _ _ (List.mem_map_of_mem (f := fun c => (cs c).height) (mem_allBytes c))
    simp only [children, height]
    omega

/-- The first non-null child in the slots from `idx` on, as the loop
`for (iter = idx + node->_children.begin(); ...)` finds it. -/
def firstChildFrom (n : NodePtr T) (idx : UInt8) : Option (NodePtr T) :=
  (allBytes.drop idx.toNat).findSome? fun c =>
    if (n.children c).isNull then none else some (n.children c)

/-- The child found is a non-null child of the node. -/
theorem firstChildFrom_eq_some {n child : NodePtr T} {idx : UInt8}
    (h : n.firstChildFrom idx = some child) :
    ∃ c, n.children c = child ∧ child.isNull = false := by
  obtain ⟨c, -, hc⟩ := List.exists_of_findSome?_eq_some h
  refine ⟨c, ?_⟩
  split at hc
  · cases hc
  · next hnull =>
    cases hc
    exact ⟨rfl, Bool.eq_false_iff.mpr hnull⟩

end NodePtr

/-- What the `while (depth < key.size())` loop of `lower_bound` ends with: an answer returned
from inside it, or the node, the depth and the context at the end of the walk. -/
inductive Descent (T : Type) where
  | found (n : NodePtr T)
  | stopped (node : NodePtr T) (depth : Nat) (context : List (NodePtr T × UInt8))

/-- The walk of `lower_bound` down the trie from `n`, whose trie key ends at `depth`. The
context is a stack whose head is `context.back()`. -/
def lowerBoundDescent (key : List UInt8) :
    NodePtr T → Nat → List (NodePtr T × UInt8) → Descent T
  | .null, depth, context => .stopped .null depth context
  | n@(.node _ _ _ _ cs), depth, context =>
    if depth < key.length then
      let idx := keyByte key depth
      -- no slot is right of `0xFF`
      let context := if idx ≠ 255 then (n, idx + 1) :: context else context
      match cs idx with
      | .null => .stopped n depth context
      | .node _ d tk dt _ =>
        let mismatchIdx := comparePrefix tk (key.drop depth)
        if mismatchIdx < tk.length then
          -- the trie key differs from the key, or goes on after it
          let mismatchChar := keyByte key (mismatchIdx + depth)
          if mismatchIdx = key.length - depth ∨ mismatchChar < tk.getD mismatchIdx 0 then
            if dt.isSome then .found (cs idx)
            else .stopped (cs idx) depth ((cs idx, 0) :: context)
          else .stopped (cs idx) depth context
        else lowerBoundDescent key (cs idx) (d + tk.length) context
    else .stopped n depth context

/-- The `while (!context.empty())` loop of `lower_bound`: from the node on top, the first child
to the right of its slot either holds data and is the answer, or is searched from its first
slot; a node with no such child is dropped. Null is `end()`. -/
def searchContext : List (NodePtr T × UInt8) → NodePtr T
  | [] => .null
  | (n, idx) :: rest =>
    match _hfirst : n.firstChildFrom idx with
    | some child =>
      if child.data.isSome then child
      else searchContext ((child, 0) :: rest)
    | none =>
      if n.trieKey.isEmpty ∧ rest.isEmpty then .null
      else searchContext rest
termination_by context => (context.map fun p => p.1.height + 1).sum
decreasing_by
  · -- the child is lower than the node it replaces on the stack
    obtain ⟨c, rfl, hc⟩ := NodePtr.firstChildFrom_eq_some _hfirst
    -- a null node has only null children
    have hn : n.isNull = false := by
      cases n
      · simp at hc
      · rfl
    have := NodePtr.height_children_lt hn c
    simp only [List.map_cons, List.sum_cons]
    omega
  · simp only [List.map_cons, List.sum_cons]
    omega

namespace RadixStore

/-- `lower_bound(key)`: the node of the smallest key at least `key`, null for `end()`; `none`
where it assigns `context.back()` with an empty context. -/
def lowerBound (st : RadixStore T) (key : List UInt8) : Option (NodePtr T) :=
  match lowerBoundDescent key st.root 0 [] with
  | .found n => some n
  | .stopped n depth context =>
    if depth = key.length then
      if n.data.isSome then some n
      else
        -- the key names an inner node: search all of its children
        match context with
        | [] => none
        | _ :: rest => some (searchContext ((n, 0) :: rest))
    else some (searchContext context)

/-- The entry after the one of `key` in the order of the iterators: `++it`. -/
def entryAfter (st : RadixStore T) (key : List UInt8) : Option (List UInt8 × T) :=
  ((st.root.entries.dropWhile fun e => e.1 ≠ key).drop 1).head?

/-- `upper_bound(key)`: the entry of the smallest key greater than `key`, `none` inside for
`end()`; `none` where `lower_bound` is undefined. -/
def upperBound (st : RadixStore T) (key : List UInt8) : Option (Option (List UInt8 × T)) :=
  (st.lowerBound key).map fun it =>
    match it.data with
    | none => none
    | some e => if e.1 = key then st.entryAfter key else some e

variable [ValueSize T]

/-- The root of a well-formed store is a node without data. -/
theorem root_of_wellFormed {st : RadixStore T} (h : st.wellFormed = true) :
    ∃ i d tk cs, st.root = .node i d tk none cs := by
  unfold wellFormed at h
  split at h
  · cases h
  · next i d tk dt cs hr =>
    simp only [Bool.and_eq_true, Option.isNone_iff_eq_none] at h
    exact ⟨i, d, tk, cs, by rw [hr, h.1.1.1.1.2]⟩

/-- `lower_bound` of the empty key is undefined in every well-formed store: the walk records
no node, and the root, which the key names, holds no data. -/
theorem lowerBound_nil_undefined (st : RadixStore T) (h : st.wellFormed = true) :
    st.lowerBound [] = none := by
  obtain ⟨i, d, tk, cs, hr⟩ := root_of_wellFormed h
  simp [lowerBound, lowerBoundDescent, hr]

/-- The store of `"\xFF\x01"` and `"\xFF\x02"`, which share an inner node `"\xFF"` without data. -/
theorem lowerBound_all_0xFF_key_undefined :
    let st : RadixStore (List UInt8) :=
      ((RadixStore.empty.insert 1 ([255, 1], [49])).1.insert 2 ([255, 2], [50])).1
    st.wellFormed = true ∧ st.root.entries.map Prod.fst = [[255, 1], [255, 2]] ∧
      (st.lowerBound [255]).isNone = true ∧ st.upperBound [255] = none := by
  decide +kernel

end RadixStore

end Mongo.Biggie
