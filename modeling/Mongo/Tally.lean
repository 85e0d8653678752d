import Mathlib

/-! The weight of a list of identities read through a table: the sum of the weights of the
entries the identities name. A store that keeps counters beside lists of references keeps them
equal to such sums; the lemmas say how the sum moves when an identity joins or leaves a list, and
when the table changes at one identity. -/

namespace Tally

variable {ι α : Type*}

/-- The sum of `w (t i)` over the identities `i` of `l`. -/
def tally (t : ι → α) (w : α → Nat) (l : List ι) : Nat := (l.map fun i => w (t i)).sum

variable {t : ι → α} {w : α → Nat}

@[simp] theorem tally_nil : tally t w [] = 0 := rfl

@[simp] theorem tally_cons (i : ι) (l : List ι) : tally t w (i :: l) = w (t i) + tally t w l := by
  simp [tally]

@[simp] theorem tally_append (l l' : List ι) : tally t w (l ++ l') = tally t w l + tally t w l' := by
  simp [tally]

theorem tally_erase [DecidableEq ι] {l : List ι} {i : ι} (h : i ∈ l) : tally t w (l.erase i) + w (t i) = tally t w l := by
  have hperm := ((List.perm_cons_erase h).map fun j => w (t j)).sum_eq
  simp only [List.map_cons, List.sum_cons] at hperm
  unfold tally
  omega

theorem tally_perm {l l' : List ι} (h : l.Perm l') : tally t w l = tally t w l' :=
  (h.map _).sum_eq

theorem tally_congr {t' : ι → α} {w' : α → Nat} {l : List ι}
    (h : ∀ i ∈ l, w' (t' i) = w (t i)) : tally t' w' l = tally t w l := by
  unfold tally
  rw [List.map_congr_left h]

section Update

variable [DecidableEq ι]

theorem tally_update_of_not_mem {l : List ι} {i : ι} (h : i ∉ l) (a : α) :
    tally (Function.update t i a) w l = tally t w l :=
  tally_congr fun j hj => by
    have hji : j ≠ i := by
      rintro rfl
      exact h hj
    rw [Function.update_of_ne hji]

/-- Changing the entry of an identity that is once in the list changes the sum by its weights. -/
theorem tally_update_of_mem {l : List ι} {i : ι} (hnd : l.Nodup) (h : i ∈ l) (a : α) :
    tally (Function.update t i a) w l + w (t i) = tally t w l + w a := by
  have hnot : i ∉ l.erase i := hnd.not_mem_erase
  have hupd := tally_erase (t := Function.update t i a) (w := w) h
  have hold := tally_erase (t := t) (w := w) h
  rw [tally_update_of_not_mem hnot, Function.update_self] at hupd
  omega

/-- The sum over a list without a repeated identity is the sum without `i`, and the weight of
`i` if it is there. -/
theorem tally_eq_erase_add {l : List ι} (i : ι) :
    tally t w l = tally t w (l.erase i) + if i ∈ l then w (t i) else 0 := by
  by_cases hi : i ∈ l
  · rw [if_pos hi, tally_erase hi]
  · rw [if_neg hi, List.erase_of_not_mem hi, Nat.add_zero]

/-- A list that has the members of another but for `i`, with the entry of `i` changed: the sums
differ by the weight of `i` where it is on each list. -/
theorem tally_update_of_members {l l' : List ι} {i : ι} (hnd : l.Nodup) (hnd' : l'.Nodup)
    (hmem : ∀ j, j ≠ i → (j ∈ l' ↔ j ∈ l)) (a : α) :
    tally (Function.update t i a) w l' + (if i ∈ l then w (t i) else 0) =
      tally t w l + if i ∈ l' then w a else 0 := by
  -- without `i` the two lists are permutations of each other, and the table agrees there
  have hperm : (l'.erase i).Perm (l.erase i) := by
    refine (List.perm_ext_iff_of_nodup (hnd'.erase i) (hnd.erase i)).mpr fun j => ?_
    rw [hnd'.mem_erase_iff, hnd.mem_erase_iff]
    exact and_congr_right (hmem j)
  have hrest : tally (Function.update t i a) w (l'.erase i) = tally t w (l.erase i) := by
    rw [tally_perm hperm, tally_update_of_not_mem hnd.not_mem_erase]
  have hnew := tally_eq_erase_add (t := Function.update t i a) (w := w) (l := l') i
  have hold := tally_eq_erase_add (t := t) (w := w) (l := l) i
  rw [Function.update_self] at hnew
  omega

end Update

theorem le_tally [DecidableEq ι] {l : List ι} {i : ι} (h : i ∈ l) : w (t i) ≤ tally t w l := by
  have := tally_erase (t := t) (w := w) h
  omega

/-- Two distinct identities of a list weigh together at most the whole list. -/
theorem add_le_tally [DecidableEq ι] {l : List ι} {i j : ι} (hi : i ∈ l) (hj : j ∈ l) (hne : i ≠ j) :
    w (t i) + w (t j) ≤ tally t w l := by
  have hj' : j ∈ l.erase i := (List.mem_erase_of_ne (Ne.symm hne)).mpr hj
  have := le_tally (t := t) (w := w) hj'
  have := tally_erase (t := t) (w := w) hi
  omega

theorem tally_pos_iff {l : List ι} : 0 < tally t w l ↔ ∃ i ∈ l, 0 < w (t i) := by
  induction l with
  | nil => simp
  | cons i l ih => simp [ih]

theorem tally_eq_zero_iff {l : List ι} : tally t w l = 0 ↔ ∀ i ∈ l, w (t i) = 0 := by
  have h := (tally_pos_iff (t := t) (w := w) (l := l)).not
  simpa only [not_lt, Nat.le_zero, not_exists, not_and] using h

end Tally
