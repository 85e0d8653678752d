import Mathlib

/-! The nodes of `biggie::RadixStore` (`db/storage/biggie/store.h`), a path-compressed trie over
byte strings whose nodes are shared between copies of a store and copied before they are
written. A node holds the full key with its value, so the store is a map from byte strings.

Reading a field through a null pointer, or `front()` of an empty vector, is undefined in the
source; the model reads an empty node and the byte 0 there, and no well-formed run gets there. -/

namespace Mongo.Biggie

/-- A node's address. `merge3` compares child pointers by address; every operation allocates
the addresses `(stamp, i)` from a stamp of its own, so no two live nodes share one. -/
abbrev NodeId := Nat × Nat

/-- `T::size()`, the length that `_dataSize` adds up. -/
class ValueSize (T : Type) where
  size : T → Nat

instance : ValueSize (List UInt8) := ⟨List.length⟩

/-- `std::shared_ptr<Node>`: null, or a node with its address, `_depth` (where its trie key
starts in the key), `_trieKey`, `_data` (the full key and the value) and the 256 `_children`
slots, indexed by the first byte of the child's trie key. -/
inductive NodePtr (T : Type) where
  | null
  | node (id : NodeId) (depth : Nat) (trieKey : List UInt8) (data : Option (List UInt8 × T))
      (children : UInt8 → NodePtr T)

namespace NodePtr

variable {T : Type}

@[simp] def isNull : NodePtr T → Bool
  | null => true
  | node .. => false

@[simp] def id : NodePtr T → NodeId
  | null => (0, 0)
  | node i _ _ _ _ => i

@[simp] def depth : NodePtr T → Nat
  | null => 0
  | node _ d _ _ _ => d

@[simp] def trieKey : NodePtr T → List UInt8
  | null => []
  | node _ _ tk _ _ => tk

@[simp] def data : NodePtr T → Option (List UInt8 × T)
  | null => none
  | node _ _ _ dt _ => dt

@[simp] def children : NodePtr T → UInt8 → NodePtr T
  | null => fun _ => null
  | node _ _ _ _ cs => cs

/-- `a == b` on two `shared_ptr<Node>`: both null, or one node. -/
@[simp] def ptrEq : NodePtr T → NodePtr T → Bool
  | null, null => true
  | node i .., node j .. => i == j
  | _, _ => false

/-- `node->_children[c] = child`. -/
@[simp] def setChild (n : NodePtr T) (c : UInt8) (child : NodePtr T) : NodePtr T :=
  match n with
  | null => null
  | node i d tk dt cs => node i d tk dt (Function.update cs c child)

end NodePtr

/-- The slot indices `0, ..., 255`, in the order the source's loops visit them. -/
def allBytes : List UInt8 := (List.range 256).map UInt8.ofNat

theorem mem_allBytes (c : UInt8) : c ∈ allBytes := by
  simp only [allBytes, List.mem_map, List.mem_range]
  exact ⟨c.toNat, c.toNat_lt, UInt8.ofNat_toNat⟩

namespace NodePtr

variable {T : Type}

/-- `Node::isLeaf`: every child slot is null. -/
def isLeaf (n : NodePtr T) : Bool := allBytes.all fun c => (n.children c).isNull

theorem isLeaf_iff (n : NodePtr T) : n.isLeaf = true ↔ ∀ c, n.children c = null := by
  simp only [isLeaf, List.all_eq_true]
  constructor
  · intro h c
    have := h c (mem_allBytes c)
    cases hc : n.children c <;> simp_all
  · intro h c _
    rw [h c]
    rfl

/-- The pre-order walk of the iterators (`_begin`, `_findNext`, `_traverseLeftSubtree`): a
node's own entry, then its children from slot 0 to slot 255. -/
def entries : NodePtr T → List (List UInt8 × T)
  | null => []
  | node _ _ _ dt cs => dt.toList ++ allBytes.flatMap fun c => (cs c).entries

@[simp] theorem entries_null : (null : NodePtr T).entries = [] := rfl

theorem entries_node (i : NodeId) (d : Nat) (tk : List UInt8) (dt : Option (List UInt8 × T))
    (cs : UInt8 → NodePtr T) :
    (node i d tk dt cs).entries = dt.toList ++ allBytes.flatMap fun c => (cs c).entries := rfl

/-- A node without children lists its own entry only. -/
theorem entries_leaf (i : NodeId) (d : Nat) (tk : List UInt8) (dt : Option (List UInt8 × T)) :
    (node i d tk dt fun _ => null).entries = dt.toList := by
  have hnil : (allBytes.flatMap fun _ => (null : NodePtr T).entries) = [] :=
    List.flatMap_eq_nil_iff.mpr fun _ _ => rfl
  rw [entries_node, hnil, List.append_nil]

/-- The node reached from `n` through the slots of `path`, as `_rebuildContext` walks the
first bytes of the trie keys it recorded. -/
def nodeAt (n : NodePtr T) : List UInt8 → NodePtr T
  | [] => n
  | c :: path => (n.children c).nodeAt path

@[simp] theorem nodeAt_nil (n : NodePtr T) : n.nodeAt [] = n := rfl

@[simp] theorem nodeAt_cons (n : NodePtr T) (c : UInt8) (path : List UInt8) :
    n.nodeAt (c :: path) = (n.children c).nodeAt path := rfl

@[simp] theorem nodeAt_null (path : List UInt8) : (null : NodePtr T).nodeAt path = null := by
  induction path with
  | nil => rfl
  | cons c path ih => exact ih

end NodePtr

/-- `charKey[i]` for `charKey = key.data()`: the byte at `i`, and the terminating NUL of the
`std::string` at `i = key.size()`. -/
def keyByte (key : List UInt8) (i : Nat) : UInt8 := key.getD i 0

/-- `_comparePrefix(key1, key2, len2)`: the index of the first difference within the shorter
length; `key2` is the rest of the searched key, `charKey + depth` of length `len2`. -/
def comparePrefix : List UInt8 → List UInt8 → Nat
  | a :: as, b :: bs => if a = b then comparePrefix as bs + 1 else 0
  | _, _ => 0

@[simp] theorem comparePrefix_nil_left (b : List UInt8) : comparePrefix [] b = 0 := rfl

@[simp] theorem comparePrefix_nil_right (a : List UInt8) : comparePrefix a [] = 0 := by
  cases a <;> rfl

theorem comparePrefix_cons_cons (a b : UInt8) (as bs : List UInt8) :
    comparePrefix (a :: as) (b :: bs) = if a = b then comparePrefix as bs + 1 else 0 := rfl

theorem comparePrefix_le_left (a b : List UInt8) : comparePrefix a b ≤ a.length := by
  induction a generalizing b with
  | nil => simp
  | cons x xs ih =>
    cases b with
    | nil => simp
    | cons y ys =>
      rw [comparePrefix_cons_cons]
      split_ifs
      · simpa using ih ys
      · simp

theorem comparePrefix_le_right (a b : List UInt8) : comparePrefix a b ≤ b.length := by
  induction a generalizing b with
  | nil => simp
  | cons x xs ih =>
    cases b with
    | nil => simp
    | cons y ys =>
      rw [comparePrefix_cons_cons]
      split_ifs
      · simpa using ih ys
      · simp

/-- The trie key is matched in full exactly when it is a prefix of the rest of the key. -/
theorem comparePrefix_eq_length_iff (a b : List UInt8) :
    comparePrefix a b = a.length ↔ a <+: b := by
  induction a generalizing b with
  | nil => simp
  | cons x xs ih =>
    cases b with
    | nil => simp
    | cons y ys =>
      rw [comparePrefix_cons_cons, List.cons_prefix_cons]
      split_ifs with h
      · simp [h, ih]
      · simp [h]

/-- `charKey[i] != _root->_trieKey[i]` of `_findNode`: a `char` of the key against a `uint8_t` of
the trie key, both promoted to `int`. The model takes `char` signed, as on x86-64, so a key byte
from `0x80` up is negative and differs from every trie-key byte, its own included. -/
def charNeTrieByte (c b : UInt8) : Bool := c.toInt8.toInt != (b.toNat : Int)

/-- The signed reading of a byte: itself below `0x80`, less `256` from there. -/
theorem toInt_toInt8 (c : UInt8) :
    c.toInt8.toInt = if c.toNat < 128 then (c.toNat : Int) else (c.toNat : Int) - 256 := by
  rw [Int8.toInt, UInt8.toBitVec_toInt8, BitVec.toInt_eq_toNat_cond, UInt8.toNat_toBitVec]
  split_ifs <;> omega

/-- A byte from `0x80` up never matches. -/
theorem charNeTrieByte_of_le {c b : UInt8} (hc : 0x80 ≤ c) : charNeTrieByte c b = true := by
  have hc' : 128 ≤ c.toNat := UInt8.le_iff_toNat_le.mp hc
  -- the signed reading is negative, the trie-key byte is not
  have hneg : (c.toNat : Int) - 256 < 0 := by have := c.toNat_lt; omega
  rw [charNeTrieByte, toInt_toInt8, if_neg (by omega), bne_iff_ne, ne_eq]
  omega

/-- The root check of `_findNode` for a store whose root is an inner node (a sub-store of
`_mergeResolveConflict`), one byte of the root's trie key at a time from key index `depth`:
`some false` at a differing byte, `some true` when the key ends inside the trie key (the source
then returns the root), `none` when the whole trie key matched. -/
def matchRootKey (key : List UInt8) : Nat → List UInt8 → Option Bool
  | _, [] => none
  | depth, b :: bs =>
    if charNeTrieByte (keyByte key depth) b then some false
    else if depth + 1 = key.length then some true
    else matchRootKey key (depth + 1) bs

variable {T : Type}

/-- The `while (node != nullptr)` loop of `_findNode`: a node whose trie key matches in full and
ends the key is the answer when it holds data; otherwise the search goes on at the byte after
the node's trie key. -/
def findNodeLoop (key : List UInt8) : NodePtr T → NodePtr T
  | .null => .null
  | n@(.node _ d tk dt cs) =>
    let mismatchIdx := comparePrefix tk (key.drop d)
    if mismatchIdx ≠ tk.length then .null
    else if mismatchIdx = key.length - d ∧ dt.isSome then n
    else findNodeLoop key (cs (keyByte key (d + tk.length)))

/-- `_findNode(key)` from the root `root`. -/
def findNode (root : NodePtr T) (key : List UInt8) : NodePtr T :=
  match matchRootKey key root.depth root.trieKey with
  | some true => root
  | some false => .null
  | none => findNodeLoop key (root.children (keyByte key (root.depth + root.trieKey.length)))

/-- A sub-store whose root has a trie key finds no key whose byte at the root's depth is from
`0x80` up, not even the root's own key: the signed `char` of the root check differs from every
trie-key byte. -/
theorem findNode_eq_null_of_high_byte (root : NodePtr T) {key : List UInt8} {b : UInt8}
    {bs : List UInt8} (htk : root.trieKey = b :: bs) (hhigh : 0x80 ≤ keyByte key root.depth) :
    findNode root key = .null := by
  rw [findNode, htk, matchRootKey, charNeTrieByte_of_le hhigh, if_pos rfl]

/-- A `RadixStore`: its `Head`, that is the root node with `_count` and `_dataSize`. The
cursor bookkeeping of `Head` (`_nextVersion`, `_hasPreviousVersion`) is left out. -/
structure RadixStore (T : Type) where
  root : NodePtr T
  count : Int
  dataSize : Int

namespace RadixStore

/-- `RadixStore()`: an empty root, allocated at `(0, 0)`. -/
def empty : RadixStore T := ⟨.node (0, 0) 0 [] none fun _ => .null, 0, 0⟩

/-- `find(key)`: the node of the key, or null for `end()`. -/
def find (st : RadixStore T) (key : List UInt8) : NodePtr T := findNode st.root key

/-- The value `find(key)` points at, if it points at a node with data. -/
def get? (st : RadixStore T) (key : List UInt8) : Option T := (st.find key).data.map Prod.snd

/-- `size()`. -/
def size (st : RadixStore T) : Int := st.count

/-- A sub-store `RadixStore(Head(node))`: rooted at an inner node, with zero counters. -/
def ofNode (n : NodePtr T) : RadixStore T := ⟨n, 0, 0⟩

end RadixStore

/-- How an operation can end other than by returning: `std::out_of_range` from
`std::vector::at`, `merge_conflict_exception`, and a failed `invariant`, which aborts. -/
inductive StoreError
  | outOfRange
  | mergeConflict
  | invariantFailure
  deriving DecidableEq, Repr

end Mongo.Biggie
