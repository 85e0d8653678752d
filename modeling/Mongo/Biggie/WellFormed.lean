import Mongo.Biggie.Merge

/-! The representation invariant of `RadixStore`: the root has an empty trie key and no data, a
child in slot `c` has a trie key that starts with `c`, every `_depth` is the length of the trie
keys above the node, a node other than the root without data has at least two children (so
every leaf holds an entry), and the root's counters are the number and the total size of the
entries. The iterators, `lower_bound` and `_compressOnlyChild` rely on it. -/

namespace Mongo.Biggie

open NodePtr

variable {T : Type}

/-- The number of non-null slots. -/
def childCount (cs : UInt8 → NodePtr T) : Nat := (allBytes.filter fun c => !(cs c).isNull).length

namespace NodePtr

/-- `n` is a well-formed child in slot `c` of a node whose trie key ends at index `depth`. -/
def wfChild : UInt8 → Nat → NodePtr T → Bool
  | _, _, .null => true
  | c, depth, .node _ d tk dt cs =>
    tk.head? == some c && d == depth && (dt.isSome || decide (2 ≤ childCount cs)) &&
      allBytes.all fun c' => wfChild c' (depth + tk.length) (cs c')

theorem wfChild_node_iff (c : UInt8) (depth : Nat) (i : NodeId) (d : Nat) (tk : List UInt8)
    (dt : Option (List UInt8 × T)) (cs : UInt8 → NodePtr T) :
    wfChild c depth (.node i d tk dt cs) = true ↔
      tk.head? = some c ∧ d = depth ∧ (dt = none → 2 ≤ childCount cs) ∧
        ∀ c', wfChild c' (depth + tk.length) (cs c') = true := by
  simp only [wfChild, Bool.and_eq_true, beq_iff_eq, Bool.or_eq_true, decide_eq_true_eq,
    List.all_eq_true]
  constructor
  · rintro ⟨⟨⟨hc, hd⟩, hdt⟩, hcs⟩
    refine ⟨hc, hd, fun h => by simpa [h] using hdt, fun c' => hcs c' (mem_allBytes c')⟩
  · rintro ⟨hc, hd, hdt, hcs⟩
    refine ⟨⟨⟨hc, hd⟩, ?_⟩, fun c' _ => hcs c'⟩
    cases dt with
    | none => exact .inr (hdt rfl)
    | some _ => exact .inl rfl

/-- Every leaf of a well-formed tree holds an entry. -/
theorem wfChild_leaf_data {c : UInt8} {depth : Nat} {i : NodeId} {d : Nat} {tk : List UInt8}
    {dt : Option (List UInt8 × T)} {cs : UInt8 → NodePtr T}
    (h : wfChild c depth (.node i d tk dt cs) = true) (hleaf : ∀ c', cs c' = .null) :
    dt.isSome = true := by
  obtain ⟨-, -, hdt, -⟩ := (wfChild_node_iff c depth i d tk dt cs).mp h
  have hcount : childCount cs = 0 := by simp [childCount, hleaf]
  cases dt with
  | none => have := hdt rfl; omega
  | some _ => rfl

end NodePtr

variable [ValueSize T]

/-- The total size of the values of a list of entries. -/
def entriesSize (es : List (List UInt8 × T)) : Int := (es.map fun e => (ValueSize.size e.2 : Int)).sum

namespace RadixStore

/-- The representation invariant of a store. -/
def wellFormed (st : RadixStore T) : Bool :=
  match st.root with
  | .null => false
  | .node _ d tk dt cs =>
    tk.isEmpty && dt.isNone && d == 0 && (allBytes.all fun c => wfChild c 0 (cs c)) &&
      st.count == st.root.entries.length && st.dataSize == entriesSize st.root.entries

theorem wellFormed_empty : (empty : RadixStore T).wellFormed = true := by
  simp [wellFormed, empty, wfChild, entries_leaf, entriesSize]

end RadixStore

/-- Over a base holding `"ax"`, `"ay"` and `"az"` below an inner node `"a"` without data, the
working store erases `"ax"` and the master erases `"ay"`. All three stores are well formed and
the merge returns, with the right entries, but leaves `"a"` without data and with one child. -/
theorem merge3_leaves_inner_node_with_one_child :
    let base : RadixStore (List UInt8) :=
      (((RadixStore.empty.insert 1 ([97, 120], [49])).1.insert 2 ([97, 121], [50])).1.insert 3
        ([97, 122], [51])).1
    let this := base.erase 4 [97, 120]
    let other := base.erase 5 [97, 121]
    let merged := do
      let t ← this
      let o ← other
      t.1.merge3 6 base o.1
    base.wellFormed = true ∧ this.toOption.map (fun r => r.1.wellFormed) = some true ∧
      other.toOption.map (fun r => r.1.wellFormed) = some true ∧
      merged.toOption.map (fun r => r.1.root.entries) = some [([97, 122], [51])] ∧
      merged.toOption.map (fun r => r.1.wellFormed) = some false ∧
      merged.toOption.map (fun r => let a := r.1.root.children 97
        (a.trieKey, a.data.isSome, childCount a.children)) = some ([97], false, 1) := by
  decide +kernel

end Mongo.Biggie
