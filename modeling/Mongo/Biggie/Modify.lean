import Mongo.Biggie.Node

/-! The modifying operations of `RadixStore`: `_upsertWithCopyOnSharedNodes`, which `insert`,
`update` and the erasure of an inner node share, `_compressOnlyChild`, and `erase`.

Copy on write is modelled by value: the nodes of a path that an operation writes to are new
values, so no other store sees the change. A node that the source copies gets a fresh address;
the model gives every node it writes a fresh address, which differs from the source only for
nodes that no other store holds, whose address nothing compares. -/

namespace Mongo.Biggie

open NodePtr

variable {T : Type} [ValueSize T]

/-- `value->second.size()` of an optional value. -/
def valueSize : Option (List UInt8 × T) → Int
  | some v => ValueSize.size v.2
  | none => 0

/-- `_addChild(node, key, value)`: a new leaf, starting where the trie key of `parent` ends, put
in the slot of the first byte of its trie key. -/
def addChild (id : NodeId) (parent : NodePtr T) (key : List UInt8)
    (value : Option (List UInt8 × T)) : NodePtr T :=
  parent.setChild (key.headD 0)
    (.node id (parent.depth + parent.trieKey.length) key value fun _ => .null)

/-- The scan of `_compressOnlyChild` over the slots: the only child seen so far, or `none` once
a second child shows up. -/
def findOnlyChild (cs : UInt8 → NodePtr T) : List UInt8 → NodePtr T → Option (NodePtr T)
  | [], onlyChild => some onlyChild
  | c :: rest, onlyChild =>
    if (cs c).isNull then findOnlyChild cs rest onlyChild
    else if !onlyChild.isNull then none
    else findOnlyChild cs rest (cs c)

/-- `_compressOnlyChild(node)`: an inner node without data and with one child takes over the
child's trie key, data and children. -/
def compressOnlyChild : NodePtr T → NodePtr T
  | .null => .null
  | n@(.node i d tk dt cs) =>
    if dt.isSome ∨ tk = [] then n
    else
      match findOnlyChild cs allBytes .null with
      | none => n
      | some onlyChild =>
        .node i d (tk ++ onlyChild.trieKey) (onlyChild.data.or dt) onlyChild.children

/-- The `while (node != nullptr)` loop of `_upsertWithCopyOnSharedNodes` at `prev`, whose trie key
ends at index `depth` of the key, on level `lvl` of the path: the new `prev`, at address
`prevId`, with the changes of `_count` and `_dataSize`. The node it walks into is copied to
`(s, 3 * lvl)`; the nodes it creates there are `(s, 3 * lvl + 1)` and `(s, 3 * lvl + 2)`. -/
def upsertLoop (s : Nat) (key : List UInt8) (value : Option (List UInt8 × T)) :
    Nat → Nat → NodeId → NodePtr T → NodePtr T × Int × Int
  | _, _, _, .null => (.null, 0, 0)
  | lvl, depth, prevId, .node _ pd ptk pdt pcs =>
    let prev : NodePtr T := .node prevId pd ptk pdt pcs
    let c := keyByte key depth
    match pcs c with
    | .null =>
      -- no key below `prev` shares the next byte: a new leaf holds the rest of the key
      (addChild (s, 3 * lvl + 1) prev (key.drop depth) value, 1, valueSize value)
    | .node _ d tk dt cs =>
      let mismatchIdx := comparePrefix tk (key.drop depth)
      if mismatchIdx ≠ tk.length then
        -- split: a new node holds the shared part of the trie key, with the old node and the
        -- rest of the key below it
        let newKey := tk.take mismatchIdx
        let newNode : NodePtr T :=
          .node (s, 3 * lvl + 1) (pd + ptk.length) newKey none fun _ => .null
        let newNode :=
          if key.length - (depth + mismatchIdx) ≠ 0 then
            addChild (s, 3 * lvl + 2) newNode (key.drop (depth + mismatchIdx)) value
          else .node (s, 3 * lvl + 1) (pd + ptk.length) newKey value fun _ => .null
        let restKey := tk.drop mismatchIdx
        let node : NodePtr T :=
          .node (s, 3 * lvl) (pd + ptk.length + newKey.length) restKey dt cs
        (prev.setChild (newKey.headD 0) (newNode.setChild (restKey.headD 0) node), 1,
          valueSize value)
      else if mismatchIdx = key.length - depth then
        -- the key ends at this node: its old entry goes, and the new one (if any) comes
        let removed : Int × Int := if dt.isSome then (-1, -valueSize dt) else (0, 0)
        match value with
        | none => (prev.setChild c (compressOnlyChild (.node (s, 3 * lvl) d tk none cs)), removed)
        | some v =>
          (prev.setChild c (.node (s, 3 * lvl) d tk (some v) cs),
            removed.1 + 1, removed.2 + ValueSize.size v.2)
      else
        let r := upsertLoop s key value (lvl + 1) (d + tk.length) (s, 3 * lvl) (pcs c)
        (prev.setChild c r.1, r.2)

/-- `_upsertWithCopyOnSharedNodes(key, value)` with stamp `s`: puts `value` at `key`, or
removes the entry of the inner node at `key` when `value` is `none`. -/
def upsertWithCopyOnSharedNodes (s : Nat) (st : RadixStore T) (key : List UInt8)
    (value : Option (List UInt8 × T)) : RadixStore T :=
  let r := upsertLoop s key value 0 (st.root.depth + st.root.trieKey.length) st.root.id st.root
  ⟨r.1, st.count + r.2.1, st.dataSize + r.2.2⟩

namespace RadixStore

/-- `insert(value)`: adds the entry when its key is non-empty and has none yet. -/
def insert (s : Nat) (st : RadixStore T) (value : List UInt8 × T) : RadixStore T × Bool :=
  if !(findNode st.root value.1).isNull || value.1.length = 0 then (st, false)
  else (upsertWithCopyOnSharedNodes s st value.1 (some value), true)

/-- `update(value)`: replaces the entry of the key when `find` sees one. -/
def update (s : Nat) (st : RadixStore T) (value : List UInt8 × T) : RadixStore T × Bool :=
  if (st.find value.1).isNull then (st, false)
  else (upsertWithCopyOnSharedNodes s st value.1 (some value), true)

end RadixStore

/-- The search loop of `erase` below `prev`, whose trie key ends at index `depth`: the slots of
the path to the node whose trie key ends the key, or `none` when a slot is null or a trie key
does not match (`erase` then returns false). -/
def erasePath (key : List UInt8) : Nat → NodePtr T → Option (List UInt8)
  | _, .null => none
  | depth, .node _ _ _ _ pcs =>
    if depth < key.length then
      let c := keyByte key depth
      match pcs c with
      | .null => none
      | .node _ d tk _ _ =>
        if comparePrefix tk (key.drop depth) ≠ tk.length then none
        else (erasePath key (d + tk.length) (pcs c)).map (c :: ·)
    else some []

/-- The removal of the leaf at the end of `path` below `parent` (at address `parentId`): the
nodes of the path are copied to `(s, 3 * lvl)`, and the parent of the leaf loses it and is
compressed into its only child if that is left. -/
def removeLeaf (s : Nat) : Nat → NodeId → NodePtr T → List UInt8 → NodePtr T
  | _, _, .null, _ => .null
  | _, parentId, .node _ d tk dt cs, [] => .node parentId d tk dt cs
  | _, parentId, .node _ d tk dt cs, [c] =>
    compressOnlyChild (.node parentId d tk dt (Function.update cs ((cs c).trieKey.headD 0) .null))
  | lvl, parentId, .node _ d tk dt cs, c :: c' :: path =>
    .node parentId d tk dt (Function.update cs c (removeLeaf s (lvl + 1) (s, 3 * lvl) (cs c) (c' :: path)))

namespace RadixStore

/-- `erase(key)`: whether the key was removed. The node the search ends at loses its entry
through `_upsertWithCopyOnSharedNodes` when it has children, and is cut off its parent when it
is a leaf; `context.at(0)` throws when that leaf is the root. -/
def erase (s : Nat) (st : RadixStore T) (key : List UInt8) : Except StoreError (RadixStore T × Bool) :=
  match erasePath key (st.root.depth + st.root.trieKey.length) st.root with
  | none => pure (st, false)
  | some path =>
    let deleted := st.root.nodeAt path
    if !deleted.isLeaf then pure (upsertWithCopyOnSharedNodes s st key none, true)
    else if path = [] then throw .outOfRange
    else pure (⟨removeLeaf s 0 st.root.id st.root path, st.count - 1,
      st.dataSize - valueSize deleted.data⟩, true)

end RadixStore

/-- After `"ab"` and `"ac"` the key `"a"` names the inner node that splits them, which holds no
entry: `find` does not see the key, yet `erase` reports it removed and removes nothing. -/
theorem erase_inner_key_reports_removed :
    let st : RadixStore (List UInt8) :=
      ((RadixStore.empty.insert 1 ([97, 98], [49])).1.insert 2 ([97, 99], [50])).1
    st.root.entries = [([97, 98], [49]), ([97, 99], [50])] ∧ (st.find [97]).isNull = true ∧
      (st.erase 3 [97]).toOption.map (fun r => (r.1.root.entries, r.2)) =
        some (st.root.entries, true) := by
  decide +kernel

end Mongo.Biggie
