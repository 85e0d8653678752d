import Mongo.Biggie.Modify

/-! `RadixStore::merge3`: the changes from `base` to `other` are merged into the working store.
The merge walks the three trees slot by slot, takes a child pointer that equals the base's as
unchanged, and recurses while the three trie keys agree; elsewhere it falls back on merging the
entries of the three subtrees one by one with `insert`, `update` and `erase` on the whole store.

The state of the walk is the working store and the next free stamp; the node `current` that
the source keeps in `context` is found again from the root through the recorded slots, as
`_rebuildContext` does after every change. -/

namespace Mongo.Biggie

open NodePtr

variable {T : Type}

/-- `_makeBranchUnique(context)` followed by `current->_children[key] = child`: the nodes on
`path` below the root are copied to `(s, lvl)`, and the last one gets `child` at `key`. -/
def setChildAt (s : Nat) (key : UInt8) (child : NodePtr T) : Nat → NodePtr T → List UInt8 → NodePtr T
  | _, n, [] => n.setChild key child
  | lvl, n, c :: path =>
    match setChildAt s key child (lvl + 1) (n.children c) path with
    | .null => n.setChild c .null
    | .node _ d tk dt cs => n.setChild c (.node (s, lvl) d tk dt cs)

/-- Setting a slot through `setChildAt` changes the node at the end of the path in that slot
only: its trie key and its entry stay, so nothing is compressed there. -/
theorem nodeAt_setChildAt (s : Nat) (key : UInt8) (child : NodePtr T) (path : List UInt8) :
    ∀ (lvl : Nat) (n : NodePtr T) {i : NodeId} {d : Nat} {tk : List UInt8}
      {dt : Option (List UInt8 × T)} {cs : UInt8 → NodePtr T},
      n.nodeAt path = .node i d tk dt cs →
        ∃ j, (setChildAt s key child lvl n path).nodeAt path =
          .node j d tk dt (Function.update cs key child) := by
  induction path with
  | nil =>
    intro lvl n i d tk dt cs hn
    rw [nodeAt_nil] at hn
    subst hn
    exact ⟨i, rfl⟩
  | cons c p ih =>
    intro lvl n i d tk dt cs hn
    obtain ⟨j, hj⟩ := ih (lvl + 1) (n.children c) hn
    -- the walk passed through `n`, so it is a node
    cases n with
    | null => simp at hn
    | node ni nd ntk ndt ncs =>
      cases hr : setChildAt s key child (lvl + 1) (ncs c) p with
      | null =>
        rw [children, hr, nodeAt_null] at hj
        cases hj
      | node i' d' tk' dt' cs' =>
        rw [children, hr] at hj
        simp only [setChildAt, children, hr, setChild, nodeAt_cons, Function.update_self]
        -- the copy of the child at a new address has the same subtree
        cases p with
        | nil =>
          rw [nodeAt_nil] at hj
          cases hj
          exact ⟨(s, lvl), rfl⟩
        | cons c' p' => exact ⟨j, hj⟩

variable [ValueSize T] [DecidableEq T]

/-- The working store after one operation, with the stamp that operation used spent. -/
abbrev MergeState (T : Type) := RadixStore T × Nat

/-- `_mergeTwoBranches(current, otherNode)`: each entry of `otherNode` is inserted, and one whose
key the working branch `current` already has is a conflict. -/
def mergeTwoBranches (current otherNode : NodePtr T) (acc : MergeState T) :
    Except StoreError (MergeState T) :=
  otherNode.entries.foldlM (fun (acc : MergeState T) otherVal =>
    if !(findNode current otherVal.1).isNull then throw .mergeConflict
    else pure ((acc.1.insert acc.2 otherVal).1, acc.2 + 1)) acc

/-- The first loop of `_mergeResolveConflict`: an entry of the master branch `otherNode` goes in
when it is new on both sides or unchanged in the working branch `current`, and conflicts when
both sides changed it. -/
def mergeResolveOther (current baseNode : NodePtr T) (acc : MergeState T)
    (otherVal : List UInt8 × T) : Except StoreError (MergeState T) :=
  let baseIter := findNode baseNode otherVal.1
  let thisIter := findNode current otherVal.1
  let baseValue := baseIter.data.map Prod.snd
  let thisValue := thisIter.data.map Prod.snd
  let otherValue := some otherVal.2
  if !thisIter.isNull && !baseIter.isNull then
    if thisValue = baseValue ∧ baseValue ≠ otherValue then
      pure ((acc.1.update acc.2 otherVal).1, acc.2 + 1)
    else if thisValue ≠ baseValue ∧ baseValue ≠ otherValue then throw .mergeConflict
    else if thisValue ≠ baseValue ∧ thisValue = otherValue then throw .mergeConflict
    else pure acc
  else if !baseIter.isNull && baseValue ≠ otherValue then throw .mergeConflict
  else if !thisIter.isNull then throw .mergeConflict
  else if thisIter.isNull && baseIter.isNull then
    pure ((acc.1.insert acc.2 otherVal).1, acc.2 + 1)
  else pure acc

/-- The second loop of `_mergeResolveConflict`: an entry of the base that the master branch
removed is erased when the working branch left it as it was, and conflicts when it changed. -/
def mergeResolveBase (current otherNode : NodePtr T) (acc : MergeState T)
    (baseVal : List UInt8 × T) : Except StoreError (MergeState T) := do
  let otherIter := findNode otherNode baseVal.1
  let thisIter := findNode current baseVal.1
  let thisValue := thisIter.data.map Prod.snd
  if otherIter.isNull then
    if !thisIter.isNull && thisValue = some baseVal.2 then
      let r ← acc.1.erase acc.2 baseVal.1
      pure (r.1, acc.2 + 1)
    else if !thisIter.isNull && thisValue ≠ some baseVal.2 then throw .mergeConflict
    else pure acc
  else pure acc

/-- `_mergeResolveConflict(current, baseNode, otherNode)`: the three subtrees are merged entry by
entry, in the order their iterators visit the entries. -/
def mergeResolveConflict (current baseNode otherNode : NodePtr T) (acc : MergeState T) :
    Except StoreError (MergeState T) := do
  let acc ← otherNode.entries.foldlM (mergeResolveOther current baseNode) acc
  baseNode.entries.foldlM (mergeResolveBase current otherNode) acc

/-- `_merge3Helper` at the node of the working store reached through `path`, against `base` and
`other`: the loop over the 256 slots, with the recursion into a child that changed on both sides
and has the same trie key in all three trees. -/
def merge3Helper (other : NodePtr T) (path : List UInt8) :
    NodePtr T → MergeState T → Except StoreError (MergeState T)
  | .null, acc => pure acc
  | .node _ _ _ _ bcs, acc =>
    allBytes.foldlM (fun (acc : MergeState T) key =>
      let node := (acc.1.root.nodeAt path).children key
      let baseNode := bcs key
      let otherNode := other.children key
      let unique := !node.ptrEq otherNode && !node.ptrEq baseNode
      -- `current->_children[key] = child` after `_makeBranchUnique`
      let put (child : NodePtr T) : MergeState T :=
        ({ acc.1 with root := setChildAt acc.2 key child 1 acc.1.root path }, acc.2 + 1)
      if node.isNull && baseNode.isNull && otherNode.isNull then pure acc
      else if node.isNull then
        if baseNode.isNull && !otherNode.isNull then pure (put otherNode)
        else if otherNode.isNull || (!baseNode.isNull && !baseNode.ptrEq otherNode) then
          throw .mergeConflict
        else pure acc
      else if !unique then
        if !baseNode.isNull && otherNode.isNull && baseNode.ptrEq node then pure (put .null)
        else if !baseNode.isNull && !otherNode.isNull && baseNode.ptrEq node then
          pure (put otherNode)
        else pure acc
      else if !baseNode.isNull && !otherNode.isNull && !baseNode.ptrEq otherNode then
        if node.isLeaf && baseNode.isLeaf && otherNode.isLeaf then throw .mergeConflict
        else if node.trieKey = baseNode.trieKey ∧ baseNode.trieKey = otherNode.trieKey then
          merge3Helper otherNode (path ++ node.trieKey.take 1) (bcs key) acc
        else mergeResolveConflict node baseNode otherNode acc
      else if !baseNode.isNull && otherNode.isNull then throw .mergeConflict
      else if baseNode.isNull && !otherNode.isNull then mergeTwoBranches node otherNode acc
      else pure acc) acc

namespace RadixStore

/-- `this.merge3(base, other)` with stamps from `s` on: the merged store and the next free
stamp. The counters are set from `other`'s and the working store's change against `base`. -/
def merge3 (s : Nat) (st base other : RadixStore T) : Except StoreError (MergeState T) := do
  let deltaCount := st.count - base.count
  let deltaDataSize := st.dataSize - base.dataSize
  if !(st.root.trieKey = [] ∧ base.root.trieKey = [] ∧ other.root.trieKey = []) then
    throw .invariantFailure
  let r ← merge3Helper other.root [] base.root (st, s)
  pure ({ r.1 with count := other.count + deltaCount, dataSize := other.dataSize + deltaDataSize },
    r.2)

end RadixStore

/-- Over a base holding `"a"`, `"ab"` and `"ac"`, the working store updates `"ab"` and the master
changes `"a"`, the key of the inner node above the other two. The merge recurses into that node
and keeps the working store's entry of `"a"`, which it never changed: the master's change is
lost. -/
theorem merge3_loses_change_of_inner_key :
    let base : RadixStore (List UInt8) :=
      (((RadixStore.empty.insert 1 ([97, 98], [49])).1.insert 2 ([97, 99], [50])).1.insert 3
        ([97], [48])).1
    let this := (base.update 4 ([97, 98], [53])).1
    let other := (base.update 5 ([97], [57])).1
    (base.get? [97], this.get? [97], other.get? [97]) = (some [48], some [48], some [57]) ∧
      (this.merge3 6 base other).toOption.map (fun r => (r.1.get? [97], r.1.get? [97, 98])) =
        some (some [48], some [53]) := by
  decide +kernel

end Mongo.Biggie
