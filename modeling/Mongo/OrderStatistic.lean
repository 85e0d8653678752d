import Mathlib.Data.List.Basic

/-! The order statistic of a sorted list: sorted by a total and transitive relation, the element
`k` places from the end, counting itself, is related to at least `k` elements of the list. A
quorum's value is read off the values its members report this way. The two laws are asked of the
list's elements only, for a comparison that is an order on some values and not on all. -/

namespace OrderStatistic

variable {α : Type*} {r : α → α → Bool}

/-- Each element of a sorted list is related to itself and to every element after it. -/
theorem le_countP_getElem :
    ∀ {s : List α}, s.Pairwise (fun a b => r a b = true) → (∀ a ∈ s, r a a = true) →
      ∀ (i : Nat) (hi : i < s.length), s.length - i ≤ s.countP (r s[i])
  | a :: t, hs, hrefl, 0, _ => by
    have ht : t.countP (r a) = t.length :=
      List.countP_eq_length.mpr fun b hb => List.rel_of_pairwise_cons hs hb
    simp [hrefl a List.mem_cons_self, ht]
  | a :: t, hs, hrefl, i + 1, hi => by
    have ih := le_countP_getElem hs.of_cons (fun b hb => hrefl b (List.mem_cons_of_mem a hb)) i
      (by simpa using hi)
    simp only [List.getElem_cons_succ, List.countP_cons, List.length_cons]
    omega

/-- A merge sort by a relation that is total and transitive on the list's elements sorts it. -/
theorem pairwise_mergeSort_of_mem {l : List α}
    (htrans : ∀ a ∈ l, ∀ b ∈ l, ∀ c ∈ l, r a b = true → r b c = true → r a c = true)
    (htotal : ∀ a ∈ l, ∀ b ∈ l, (r a b || r b a) = true) :
    (l.mergeSort r).Pairwise (fun a b => r a b = true) := by
  -- as members of `l` the laws hold everywhere, and sorting commutes with forgetting membership
  let r' : {x // x ∈ l} → {x // x ∈ l} → Bool := fun a b => r a.1 b.1
  have hs : (l.attach.mergeSort r').Pairwise (fun a b => r' a b = true) :=
    List.pairwise_mergeSort (fun a b c => htrans a.1 a.2 b.1 b.2 c.1 c.2)
      (fun a b => htotal a.1 a.2 b.1 b.2) _
  have hmap : (l.attach.mergeSort r').map Subtype.val = l.mergeSort r := by
    rw [List.map_mergeSort (s := r) (f := Subtype.val) (fun _ _ _ _ => rfl),
      List.attach_map_subtype_val]
  rw [← hmap, List.pairwise_map]
  exact hs

/-- The element `k` places from the end of the sorted list is related to at least `k` of the
list's elements. -/
theorem le_countP_mergeSort_getElem {l : List α}
    (htrans : ∀ a ∈ l, ∀ b ∈ l, ∀ c ∈ l, r a b = true → r b c = true → r a c = true)
    (htotal : ∀ a ∈ l, ∀ b ∈ l, (r a b || r b a) = true) {k : Nat} {c : α}
    (hc : (l.mergeSort r)[l.length - k]? = some c) (hk : k ≤ l.length) :
    k ≤ l.countP (r c) := by
  obtain ⟨hi, rfl⟩ := List.getElem?_eq_some_iff.mp hc
  have hrefl : ∀ a ∈ l.mergeSort r, r a a = true := fun a ha => by
    have hl := List.mem_mergeSort.mp ha
    simpa using htotal a hl a hl
  have hcount := le_countP_getElem (pairwise_mergeSort_of_mem htrans htotal) hrefl _ hi
  rw [(List.mergeSort_perm l r).countP_eq, List.length_mergeSort] at hcount
  omega

end OrderStatistic
