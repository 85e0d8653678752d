import Mathlib.Data.List.TakeWhile

/-! Scanning a sorted list of keys that may jump ahead.

Keys are lists of fields compared lexicographically, each position with its own comparison,
picked by a tag (`LexLe`). A seek key is a list of fields as long as a prefix of a key: a key
reaches it when it is past the seek key at the first field where the two differ, or equal to it
on all of its fields and the seek is inclusive (`Reaches`). A key at or after one that reaches a
seek key reaches it too (`Reaches.of_lexLe`).

A scan walks a sorted list and asks a checker about the key it is on: use the key and go to the
next, jump to the first key of the whole list that reaches a target, or stop (`run`). When the
checker uses only keys of a predicate, jumps only over keys without it, and stops only where no
key from there on has it, the scan returns exactly the keys of the predicate, in order
(`run_eq_filter`). -/

namespace SkipScan

open Std

/-! ## Lexicographic keys and seek keys -/

section Lex

variable {γ α : Type*} (c : γ → α → α → Ordering)

/-- `as` is at or before `bs`: at the first position where they differ, by the comparison of
the position's tag, `as` is below. A key longer than the other is not below it. -/
def LexLe : List γ → List α → List α → Prop
  | t :: ts, a :: as, b :: bs => c t a b = .lt ∨ (c t a b = .eq ∧ LexLe ts as bs)
  | _ :: _, _ :: _, [] => False
  | _, _, _ => True

/-- The key `as` reaches the seek key `fs`: it is past `fs` at the first field where they
differ, or equal to it on all of `fs` and the seek is `inclusive`. -/
def Reaches (inclusive : Bool) : List γ → List α → List α → Prop
  | _, _, [] => inclusive = true
  | t :: ts, a :: as, f :: fs => c t a f = .gt ∨ (c t a f = .eq ∧ Reaches inclusive ts as fs)
  | _, _, _ :: _ => False

/-- `LexLe` is decided field by field. -/
def decLexLe : ∀ (ts : List γ) (as bs : List α), Decidable (LexLe c ts as bs)
  | t :: ts, a :: as, b :: bs =>
    haveI := decLexLe ts as bs
    inferInstanceAs (Decidable (c t a b = .lt ∨ (c t a b = .eq ∧ LexLe c ts as bs)))
  | _ :: _, _ :: _, [] => isFalse id
  | [], _, _ => isTrue trivial
  | _ :: _, [], _ => isTrue trivial

instance (ts : List γ) (as bs : List α) : Decidable (LexLe c ts as bs) := decLexLe c ts as bs

/-- `Reaches` is decided field by field. -/
def decReaches (inclusive : Bool) : ∀ (ts : List γ) (as fs : List α),
    Decidable (Reaches c inclusive ts as fs)
  | [], _, [] => inferInstanceAs (Decidable (inclusive = true))
  | _ :: _, [], [] => inferInstanceAs (Decidable (inclusive = true))
  | _ :: _, _ :: _, [] => inferInstanceAs (Decidable (inclusive = true))
  | t :: ts, a :: as, f :: fs =>
    haveI := decReaches inclusive ts as fs
    inferInstanceAs (Decidable (c t a f = .gt ∨ (c t a f = .eq ∧ Reaches c inclusive ts as fs)))
  | [], _, _ :: _ => isFalse id
  | _ :: _, [], _ :: _ => isFalse id

instance (inclusive : Bool) (ts : List γ) (as fs : List α) :
    Decidable (Reaches c inclusive ts as fs) :=
  decReaches c inclusive ts as fs

variable {c}

/-- An empty seek key is reached exactly when the seek is inclusive. -/
@[simp] theorem reaches_nil {inclusive : Bool} (ts : List γ) (as : List α) :
    Reaches c inclusive ts as [] ↔ inclusive = true := by
  cases ts <;> cases as <;> rfl

variable (hc : ∀ t, TransCmp (c t))
include hc

theorem lexLe_refl : ∀ (ts : List γ) (as : List α), LexLe c ts as as
  | t :: ts, a :: as => by
    have := hc t
    exact .inr ⟨ReflCmp.compare_self, lexLe_refl ts as⟩
  | [], _ => trivial
  | _ :: _, [] => trivial

/-- Reaching a seek key is kept by moving on in the order. -/
theorem Reaches.of_lexLe {inclusive : Bool} :
    ∀ {ts : List γ} {as bs fs : List α}, LexLe c ts as bs → Reaches c inclusive ts as fs →
      Reaches c inclusive ts bs fs
  | _, _, _, [], _, h => by
    rw [reaches_nil] at h ⊢
    exact h
  | t :: ts, a :: as, b :: bs, f :: fs, hle, hr => by
    have := hc t
    have hab : (c t a b).isLE := by
      rcases hle with h | ⟨h, -⟩ <;> simp [h]
    rcases hr with hgt | ⟨heq, hr⟩
    · -- `a` is past `f`, and `b` is at or past `a`
      have hfa : c t f a = .lt := OrientedCmp.gt_iff_lt.mp hgt
      exact .inl (OrientedCmp.gt_iff_lt.mpr (TransCmp.lt_of_lt_of_isLE hfa hab))
    · rcases hle with hlt | ⟨hab, hle⟩
      · -- `a` equals `f` on this field, and `b` is past `a`
        have hfb : c t f b = .lt := by
          rw [TransCmp.congr_left (OrientedCmp.eq_comm.mp heq)]
          exact hlt
        exact .inl (OrientedCmp.gt_iff_lt.mpr hfb)
      · have hbf : c t b f = .eq :=
          TransCmp.eq_trans (OrientedCmp.eq_comm.mp hab) heq
        exact .inr ⟨hbf, Reaches.of_lexLe hle hr⟩
  | [], _, _, _ :: _, _, hr => hr.elim
  | _ :: _, [], _, _ :: _, _, hr => hr.elim
  | _ :: _, _ :: _, [], _ :: _, hle, _ => hle.elim

/-- A key reaches a seek key that starts with its own first `p` fields exactly when, from field
`p` on, it reaches the rest of the seek key. -/
theorem reaches_take_append_iff {inclusive : Bool} (gs : List α) (p : Nat) :
    ∀ {ts : List γ} {as : List α}, p ≤ ts.length → p ≤ as.length →
      (Reaches c inclusive ts as (as.take p ++ gs) ↔
        Reaches c inclusive (ts.drop p) (as.drop p) gs) := by
  induction p with
  | zero => intro ts as _ _; simp
  | succ p ih =>
    intro ts as hts has
    cases ts with
    | nil => simp at hts
    | cons t ts =>
      cases as with
      | nil => simp at has
      | cons a as =>
        have := hc t
        simp only [List.take_succ_cons, List.cons_append, List.drop_succ_cons]
        rw [← ih (by simpa using hts) (by simpa using has)]
        show (c t a a = .gt ∨ (c t a a = .eq ∧ _)) ↔ _
        simp [ReflCmp.compare_self]

/-- A key at or after `as` that does not reach a seek key starting with the first `p` fields of
`as` agrees with `as` there: from field `p` on it is still at or after `as`, and does not reach
the rest of the seek key. -/
theorem LexLe.drop_of_not_reaches {inclusive : Bool} (gs : List α) (p : Nat) :
    ∀ {ts : List γ} {as bs : List α}, LexLe c ts as bs →
      ¬ Reaches c inclusive ts bs (as.take p ++ gs) → p ≤ ts.length → p ≤ as.length →
      LexLe c (ts.drop p) (as.drop p) (bs.drop p) ∧
        ¬ Reaches c inclusive (ts.drop p) (bs.drop p) gs := by
  induction p with
  | zero => intro ts as bs hle hr _ _; simpa using ⟨hle, hr⟩
  | succ p ih =>
    intro ts as bs hle hr hts has
    cases ts with
    | nil => simp at hts
    | cons t ts =>
      cases as with
      | nil => simp at has
      | cons a as =>
        cases bs with
        | nil => exact hle.elim
        | cons b bs =>
          have := hc t
          simp only [List.take_succ_cons, List.cons_append, List.drop_succ_cons] at hr ⊢
          rcases hle with hlt | ⟨heq, hle⟩
          · -- `bs` is past `as` at this field, so it reaches the seek key there
            exact (hr (.inl (OrientedCmp.gt_iff_lt.mpr hlt))).elim
          · exact ih hle (fun h => hr (.inr ⟨OrientedCmp.eq_comm.mp heq, h⟩))
              (by simpa using hts) (by simpa using has)

end Lex

/-! ## A scan that jumps ahead -/

section Scan

variable {κ σ τ : Type*}

/-- What the checker says of the key the scan is on: use it and go on to the next key; jump
to the first key of the list that reaches a target; or stop. -/
inductive Verdict (σ τ : Type*)
  | use (st : σ)
  | seek (target : τ) (st : σ)
  | stop

variable (keys : List κ) (check : σ → κ → Verdict σ τ) (reach : τ → κ → Bool)

/-- The scan from the keys at and after the one it is on; `none` when the fuel runs out. -/
def run : Nat → σ → List κ → Option (List κ)
  | 0, _, _ => none
  | _ + 1, _, [] => some []
  | fuel + 1, st, k :: rest =>
    match check st k with
    | .use st' => (run fuel st' rest).map (k :: ·)
    | .seek target st' => run fuel st' (keys.dropWhile fun k' => !reach target k')
    | .stop => some []

variable (le : κ → κ → Prop) (P : κ → Prop) (Inv : σ → Prop)

/-- What the checker guarantees on the keys of the list from a state of `Inv`: a key it uses
has `P`; a jump leaves the key it is on behind, and passes over no key at or after it that has
`P`; and where it stops, no key at or after it has `P`. Each answer but the last leads to a state
of `Inv`. -/
structure Sound : Prop where
  use : ∀ {st st' k}, k ∈ keys → Inv st → check st k = .use st' → P k ∧ Inv st'
  seek : ∀ {st st' k target}, k ∈ keys → Inv st → check st k = .seek target st' →
    reach target k = false ∧ Inv st' ∧ ∀ k' ∈ keys, le k k' → reach target k' = false → ¬ P k'
  stop : ∀ {st k}, k ∈ keys → Inv st → check st k = .stop → ∀ k' ∈ keys, le k k' → ¬ P k'

variable {keys check reach le P Inv} [DecidablePred P]

/-- A jump passes over keys without `P`: the keys of `P` are those of the keys it lands on. -/
theorem filter_dropWhile {q : κ → Bool} {l : List κ}
    (h : ∀ x ∈ l.takeWhile q, ¬ P x) : (l.dropWhile q).filter P = l.filter P := by
  have hpassed : (l.takeWhile q).filter P = [] :=
    List.filter_eq_nil_iff.mpr fun x hx => by simpa using h x hx
  calc (l.dropWhile q).filter P = (l.takeWhile q).filter P ++ (l.dropWhile q).filter P := by
        rw [hpassed, List.nil_append]
    _ = l.filter P := by rw [← List.filter_append, List.takeWhile_append_dropWhile]

/-- A jump depends only on the test at the keys of the list. -/
theorem dropWhile_congr {p q : κ → Bool} {l : List κ} (h : ∀ x ∈ l, p x = q x) :
    l.dropWhile p = l.dropWhile q := by
  induction l with
  | nil => rfl
  | cons x l ih =>
    simp only [List.dropWhile_cons, h x List.mem_cons_self]
    rw [ih fun y hy => h y (List.mem_cons_of_mem x hy)]

/-- A jump lands on a suffix no longer than the list. -/
theorem length_dropWhile_le (q : κ → Bool) (l : List κ) : (l.dropWhile q).length ≤ l.length := by
  have := congrArg List.length (List.takeWhile_append_dropWhile (p := q) (l := l))
  simp only [List.length_append] at this
  omega

section Run

variable (hsound : Sound keys check reach le P Inv) (hsorted : keys.Pairwise le)
  (hrefl : ∀ k ∈ keys, le k k) (hmono : ∀ target, ∀ k ∈ keys, ∀ k' ∈ keys, le k k' →
    reach target k = true → reach target k' = true)

include hsorted hrefl hmono in
/-- A jump from a key that does not reach the target lands on the same key as a jump from the
keys after it. -/
theorem dropWhile_eq_of_not_reach {pre rest : List κ} {k : κ} {target : τ}
    (hkeys : keys = pre ++ k :: rest) (hk : reach target k = false) :
    keys.dropWhile (fun k' => !reach target k') = rest.dropWhile (fun k' => !reach target k') := by
  have hkmem : k ∈ keys := by
    rw [hkeys]
    exact List.mem_append_right pre List.mem_cons_self
  have hpre : ∀ x ∈ pre ++ [k], x ∈ keys := by
    intro x hx
    rw [hkeys, show pre ++ k :: rest = (pre ++ [k]) ++ rest by simp]
    exact List.mem_append_left rest hx
  -- the keys up to `k` are at or before it, so none of them reaches the target
  have hbefore : ∀ x ∈ pre ++ [k], le x k := by
    intro x hx
    rcases List.mem_append.mp hx with hx | hx
    · rw [hkeys] at hsorted
      exact (List.pairwise_append.mp hsorted).2.2 x hx k List.mem_cons_self
    · rw [List.mem_singleton.mp hx]
      exact hrefl k hkmem
  rw [hkeys, show pre ++ k :: rest = (pre ++ [k]) ++ rest by simp,
    List.dropWhile_append_of_pos]
  intro x hx
  cases hx' : reach target x
  · rfl
  · rw [hmono target x (hpre x hx) k hkmem (hbefore x hx) hx'] at hk
    exact absurd hk (by simp)

include hsound hsorted hrefl hmono in
/-- With fuel for every key left, the scan returns the keys of `P` among them. -/
theorem run_eq_filter :
    ∀ (fuel : Nat) (st : σ) (pre rest : List κ), keys = pre ++ rest → rest.length < fuel →
      Inv st → run keys check reach fuel st rest = some (rest.filter P)
  | 0, _, _, _, _, hlt, _ => absurd hlt (Nat.not_lt_zero _)
  | _ + 1, _, _, [], _, _, _ => rfl
  | fuel + 1, st, pre, k :: rest, hkeys, hlt, hinv => by
    -- the keys after `k` are at or after it
    have hafter : ∀ x ∈ rest, le k x := by
      rw [hkeys] at hsorted
      exact fun x hx => List.rel_of_pairwise_cons (List.pairwise_append.mp hsorted).2.1 hx
    have hmem : ∀ x ∈ k :: rest, x ∈ keys := fun x hx => by
      rw [hkeys]
      exact List.mem_append_right pre hx
    rw [run]
    split
    · rename_i st' hcheck
      obtain ⟨hk, hinv'⟩ := hsound.use (hmem k List.mem_cons_self) hinv hcheck
      rw [run_eq_filter fuel st' (pre ++ [k]) rest (by simp [hkeys]) (by simpa using hlt) hinv',
        List.filter_cons_of_pos (by simpa using hk)]
      rfl
    · rename_i target st' hcheck
      obtain ⟨hk, hinv', hskip⟩ := hsound.seek (hmem k List.mem_cons_self) hinv hcheck
      rw [dropWhile_eq_of_not_reach hsorted hrefl hmono hkeys hk]
      -- the keys the jump passes over are after `k` and do not reach the target
      have hpassed : ∀ x ∈ rest.takeWhile (fun k' => !reach target k'), ¬ P x := by
        intro x hx
        have hx' := List.mem_takeWhile_imp hx
        have hxr : x ∈ rest := (List.takeWhile_sublist _).subset hx
        exact hskip x (hmem x (List.mem_cons_of_mem k hxr)) (hafter x hxr) (by simpa using hx')
      have hsplit := List.takeWhile_append_dropWhile (p := fun k' => !reach target k') (l := rest)
      have hlen : (rest.dropWhile fun k' => !reach target k').length < fuel := by
        have := length_dropWhile_le (fun k' => !reach target k') rest
        simp only [List.length_cons] at hlt
        omega
      rw [run_eq_filter fuel st' (pre ++ k :: rest.takeWhile fun k' => !reach target k') _
        (by rw [hkeys, List.append_assoc, List.cons_append, hsplit]) hlen hinv',
        List.filter_cons_of_neg (by simpa using hskip k (hmem k List.mem_cons_self) (hrefl k (hmem k List.mem_cons_self)) hk),
        filter_dropWhile hpassed]
    · rename_i hcheck
      have hnone := hsound.stop (hmem k List.mem_cons_self) hinv hcheck
      rw [List.filter_eq_nil_iff.mpr]
      intro x hx
      rcases List.mem_cons.mp hx with rfl | hx'
      · simpa using hnone x (hmem x hx) (hrefl x (hmem x hx))
      · simpa using hnone x (hmem x hx) (hafter x hx')

include hsound hsorted hrefl hmono in
/-- A scan that starts with a jump to `start`, past keys without `P`, returns the keys of `P`. -/
theorem run_seek_eq_filter {start : τ} (hstart : ∀ k ∈ keys, reach start k = false → ¬ P k)
    {fuel : Nat} (hfuel : keys.length < fuel) {st : σ} (hinv : Inv st) :
    run keys check reach fuel st (keys.dropWhile fun k => !reach start k) =
      some (keys.filter P) := by
  have hsplit := List.takeWhile_append_dropWhile (p := fun k => !reach start k) (l := keys)
  have hlen : (keys.dropWhile fun k => !reach start k).length < fuel :=
    Nat.lt_of_le_of_lt (length_dropWhile_le _ keys) hfuel
  rw [run_eq_filter hsound hsorted hrefl hmono fuel st _ _ hsplit.symm hlen hinv,
    filter_dropWhile]
  intro x hx
  exact hstart x ((List.takeWhile_sublist _).subset hx) (by simpa using List.mem_takeWhile_imp hx)

end Run

end Scan

end SkipScan
