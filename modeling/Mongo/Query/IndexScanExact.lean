import Mongo.Query.IndexScan
import Mongo.Query.CheckKey

/-! An index scan over checked bounds returns exactly the keys in the bounds.

The calls of `IndexScan::doWork` make the scan of `SkipScan.run`: each reads a key and asks the
checker, and the answer hands the key up, seeks, or stops (`runToEOF_of_run`). The cursor's order
is the order of the scan (`atOrAfter_iff_reaches`), and what `checkKey` answers meets what
`SkipScan.run_seek_eq_filter` asks of a checker (`scanVerdict_sound`): a key it hands up is in
the bounds, a seek passes over keys out of the bounds only, and after `DONE` no key is in the
bounds. -/

namespace Mongo.Sorting.TotalPreorder

open Mongo.Query

variable {β : Type} {cmp : β → β → Int}

/-- A comparison with the signs of a total preorder is one. -/
theorem of_sign_iff {cmp' : β → β → Int} (hcmp : TotalPreorder cmp)
    (hlt : ∀ a b, cmp' a b < 0 ↔ cmp a b < 0) (hle : ∀ a b, cmp' a b ≤ 0 ↔ cmp a b ≤ 0) :
    TotalPreorder cmp' where
  neg_iff a b := by
    rw [hlt, hcmp.neg_iff, ← Int.not_le, ← Int.not_le, hle]
  le_trans a b c hab hbc := by
    rw [hle] at hab hbc ⊢
    exact hcmp.le_trans a b c hab hbc

/-- `cmp` turned by any factor is a total preorder: a positive one orders as `1` does, a negative
one as `-1`, and by zero all values are equal. -/
theorem dirCmp_any (hcmp : TotalPreorder cmp) (e : Int) : TotalPreorder (Mongo.Query.dirCmp cmp e) := by
  rcases lt_trichotomy e 0 with he | rfl | he
  · refine (hcmp.dirCmp (e := -1) (.inr rfl)).of_sign_iff (fun a b => ?_) (fun a b => ?_) <;>
      simp only [Mongo.Query.dirCmp] <;> constructor <;> intro h <;> nlinarith
  · exact ⟨fun a b => by simp [Mongo.Query.dirCmp], fun a b c _ _ => by simp [Mongo.Query.dirCmp]⟩
  · refine (hcmp.dirCmp (e := 1) (.inl rfl)).of_sign_iff (fun a b => ?_) (fun a b => ?_) <;>
      simp only [Mongo.Query.dirCmp] <;> constructor <;> intro h <;> nlinarith

/-- The three-way reading of a total preorder has the laws of `Std.TransCmp`. -/
theorem transCmp_ordOfInt (hcmp : TotalPreorder cmp) :
    Std.TransCmp fun a b => ordOfInt (cmp a b) where
  eq_swap {a b} := by
    simp only [ordOfInt]
    rcases lt_trichotomy (cmp a b) 0 with hab | hab | hab
    · rw [compare_lt_iff_lt.mpr hab, compare_gt_iff_gt.mpr ((hcmp.neg_iff a b).mp hab)]
      rfl
    · rw [hab, (hcmp.zero_iff a b).mp hab]
      rfl
    · rw [compare_gt_iff_gt.mpr hab, compare_lt_iff_lt.mpr ((hcmp.neg_iff b a).mpr hab)]
      rfl
  isLE_trans {a b c} hab hbc := by
    simp only [ordOfInt, Ordering.isLE_iff_ne_gt, compare_gt_iff_gt] at hab hbc ⊢
    exact Int.not_lt.mpr (hcmp.le_trans a b c (Int.not_lt.mp hab) (Int.not_lt.mp hbc))

end Mongo.Sorting.TotalPreorder

namespace Mongo.Query

open Mongo.Sorting (TotalPreorder)
open Mongo.KeyString (Discriminator)
open IndexBoundsChecker IndexEntryComparison

variable {β : Type} {cmp : β → β → Int}

/-- The scan order of every field is a `Std.TransCmp`. -/
theorem scanCmp_transCmp (hcmp : TotalPreorder cmp) (e : Int) : Std.TransCmp (scanCmp cmp e) :=
  TotalPreorder.transCmp_ordOfInt (hcmp.dirCmp_any e)

/-! ## The cursor's order -/

/-- Whether a key equal to a seek key on all of its fields is at or after it, in the direction of
the cursor: the discriminator puts the seek key before or after such keys. -/
def reachesAtEnd (forward : Bool) : Discriminator → Bool
  | .kInclusive => true
  | .kExclusiveBefore => forward
  | .kExclusiveAfter => !forward

/-- The direction of each field in the scan: the index's `Ordering`, turned for a backward
cursor. -/
def IndexCursor.scanDirections (cursor : IndexCursor β) : List Int :=
  cursor.ordering.map fun o => o * (if cursor.forward then 1 else -1)

/-- `compareWithSeekKey` read in the direction of the cursor is `Reaches` in the scan's order, for
a seek key no longer than the key and the `Ordering`. -/
theorem compareWithSeekKey_reaches (forward : Bool) (d : Discriminator) (fs : List β) :
    ∀ (os : List Int) (ks : List β), fs.length ≤ ks.length → fs.length ≤ os.length →
      ((if forward then compareWithSeekKey cmp d os ks fs != .lt
        else compareWithSeekKey cmp d os ks fs != .gt) = true ↔
      SkipScan.Reaches (scanCmp cmp) (reachesAtEnd forward d)
        (os.map fun o => o * (if forward then 1 else -1)) ks fs) := by
  induction fs with
  | nil =>
    intro os ks _ _
    rw [SkipScan.reaches_nil]
    cases d <;> cases forward <;> cases os <;> cases ks <;> simp [compareWithSeekKey, reachesAtEnd]
  | cons f fs ih =>
    intro os ks hks hos
    cases os with
    | nil => simp at hos
    | cons o os =>
      cases ks with
      | nil => simp at hks
      | cons k ks =>
        have ih := ih os ks (by simpa using hks) (by simpa using hos)
        -- the field in the scan's direction is the field under the `Ordering`, turned back
        have hdir : dirCmp cmp (o * (if forward then 1 else -1)) k f =
            (if forward then o * cmp k f else -(o * cmp k f)) := by
          unfold dirCmp
          split_ifs <;> ring
        show _ ↔ (scanCmp cmp _ k f = .gt ∨ (scanCmp cmp _ k f = .eq ∧ _))
        simp only [compareWithSeekKey, scanCmp, ordOfInt, hdir, ← ih]
        generalize o * cmp k f = x
        rcases lt_trichotomy x 0 with h | h | h <;> cases forward <;>
          simp [h, not_lt.mpr h.le, compare_gt_iff_gt] <;> intro hx <;> omega

/-- A key no shorter than the seek key is at or after it, in the direction of the cursor, when it
reaches it in the order of the scan. -/
theorem atOrAfter_iff_reaches (cursor : IndexCursor β) (seekKey : List β × Discriminator)
    (key : List β) (hkey : seekKey.1.length ≤ key.length)
    (hord : seekKey.1.length ≤ cursor.ordering.length) :
    cursor.atOrAfter cmp seekKey key = true ↔
      SkipScan.Reaches (scanCmp cmp) (reachesAtEnd cursor.forward seekKey.2) cursor.scanDirections
        key seekKey.1 :=
  compareWithSeekKey_reaches cursor.forward seekKey.2 seekKey.1 cursor.ordering key hkey hord

/-! ## The seek key -/

section SeekKey

variable {sp : IndexSeekPoint β}

/-- The discriminator of a seek puts the seek key before the keys equal to its fields exactly
when the seek includes them: such keys reach it exactly then. -/
@[simp] theorem reachesAtEnd_discriminator (forward inclusive : Bool) :
    reachesAtEnd forward (if forward == inclusive then .kExclusiveBefore else .kExclusiveAfter) =
      inclusive := by
  cases forward <;> cases inclusive <;> rfl

/-- The seek key of an exclusive prefix: the prefix, after every key that starts with it. -/
theorem makeKeyString_of_prefixExclusive (forward : Bool) (hexcl : sp.prefixExclusive = true)
    (hlen : sp.prefixLen ≤ sp.keyPrefix.length) (hpos : 0 < sp.prefixLen) :
    makeKeyStringFromSeekPointForSeek sp forward =
      .ok (sp.keyPrefix.take sp.prefixLen,
        if forward == false then .kExclusiveBefore else .kExclusiveAfter) := by
  simp [makeKeyStringFromSeekPointForSeek, hexcl, invariant, hlen, hpos]

/-- The seek key of a seek point with a suffix: the prefix and the suffix, included when every
field of the suffix is. -/
theorem makeKeyString_of_suffix (forward : Bool) (hexcl : sp.prefixExclusive = false)
    (hlen : sp.prefixLen ≤ sp.keyPrefix.length)
    (hsuffix : sp.keySuffix.length = sp.suffixInclusive.length) {excl : Bool}
    (hx : suffixExclusiveFrom sp sp.prefixLen (sp.keySuffix.length - sp.prefixLen) = .ok excl)
    {gs : List β}
    (hgs : appendSuffixFrom sp sp.prefixLen (sp.keySuffix.length - sp.prefixLen) = .ok gs) :
    makeKeyStringFromSeekPointForSeek sp forward =
      .ok (sp.keyPrefix.take sp.prefixLen ++ gs,
        if forward == !excl then .kExclusiveBefore else .kExclusiveAfter) := by
  rw [hsuffix] at hx hgs
  simp [makeKeyStringFromSeekPointForSeek, hexcl, invariant, hlen, hsuffix, hx, hgs]

/-- The loops over the suffix from field `i` on run through when the seek point has the fields
they read, and the suffix has at most one field for each. -/
theorem suffixFrom_ok (k : Nat) :
    ∀ i, (∀ j, i ≤ j → j < i + k →
        ∃ s incl, sp.keySuffix[j]? = some (some s) ∧ sp.suffixInclusive[j]? = some incl) →
      ∃ gs excl, appendSuffixFrom sp i k = .ok gs ∧ suffixExclusiveFrom sp i k = .ok excl ∧
        gs.length ≤ k := by
  induction k with
  | zero => exact fun _ _ => ⟨[], false, rfl, rfl, le_rfl⟩
  | succ k ih =>
    intro i hfields
    obtain ⟨s, incl, hs, hincl⟩ := hfields i le_rfl (by omega)
    cases incl with
    | false =>
      refine ⟨[s], true, ?_, ?_, by simp⟩ <;>
        simp [appendSuffixFrom, suffixExclusiveFrom, elemAt_of_getElem? hs,
          elemAt_of_getElem? hincl]
    | true =>
      obtain ⟨gs, excl, hgs, hx, hlen⟩ := ih (i + 1) fun j hj hjk => hfields j (by omega) (by omega)
      refine ⟨s :: gs, excl, ?_, ?_, by simpa using hlen⟩ <;>
        simp [appendSuffixFrom, suffixExclusiveFrom, elemAt_of_getElem? hs,
          elemAt_of_getElem? hincl, hgs, hx]

/-- One field of the suffix loops: an included field is followed by the rest of the suffix, and
an excluded one ends it and makes the seek exclusive. -/
theorem suffixFrom_succ_eq_ok {i k : Nat} {gs : List β} {excl : Bool}
    (hgs : appendSuffixFrom sp i (k + 1) = .ok gs) (hx : suffixExclusiveFrom sp i (k + 1) = .ok excl) :
    ∃ s incl, sp.keySuffix[i]? = some (some s) ∧ sp.suffixInclusive[i]? = some incl ∧
      ((incl = false ∧ gs = [s] ∧ excl = true) ∨
        (incl = true ∧ ∃ rest, gs = s :: rest ∧ appendSuffixFrom sp (i + 1) k = .ok rest ∧
          suffixExclusiveFrom sp (i + 1) k = .ok excl)) := by
  simp only [appendSuffixFrom] at hgs
  obtain ⟨elt, helt, hgs⟩ := bind_eq_ok.mp hgs
  cases elt with
  | none => cases hgs
  | some s =>
    obtain ⟨incl, hincl, hgs⟩ := bind_eq_ok.mp hgs
    simp only [suffixExclusiveFrom, hincl, ok_bind] at hx
    refine ⟨s, incl, elemAt_eq_ok.mp helt, elemAt_eq_ok.mp hincl, ?_⟩
    cases incl with
    | false =>
      simp only [Bool.not_false, if_true, pure_eq_ok, Except.ok.injEq] at hgs hx
      exact .inl ⟨rfl, hgs.symm, hx.symm⟩
    | true =>
      simp only [Bool.not_true, Bool.false_eq_true, if_false] at hgs hx
      obtain ⟨rest, hrest, hgs⟩ := bind_eq_ok.mp hgs
      simp only [pure_eq_ok, Except.ok.injEq] at hgs
      exact .inr ⟨rfl, rest, hgs.symm, hrest, hx⟩

variable (hcmp : TotalPreorder cmp)
include hcmp

/-- A key that reaches the seek key from field `i` on is at or above the first field of the
suffix there: past it, or equal to it and the field included. -/
theorem atOrAbove_of_reaches_suffix {i k : Nat} {gs : List β} {excl : Bool}
    (hgs : appendSuffixFrom sp i (k + 1) = .ok gs) (hx : suffixExclusiveFrom sp i (k + 1) = .ok excl)
    {s : β} {incl : Bool} (hs : sp.keySuffix[i]? = some (some s))
    (hincl : sp.suffixInclusive[i]? = some incl) {e : Int} {ts : List Int} {y : β} {ys : List β}
    (hr : SkipScan.Reaches (scanCmp cmp) (!excl) (e :: ts) (y :: ys) gs) :
    Interval.AtOrAbove (dirCmp cmp e) s incl y := by
  obtain ⟨s', incl', hs', hincl', hstep⟩ := suffixFrom_succ_eq_ok hgs hx
  simp only [hs, hincl, Option.some.injEq] at hs' hincl'
  subst hs' hincl'
  have hdir := hcmp.dirCmp_any e
  rcases hstep with ⟨rfl, rfl, rfl⟩ | ⟨rfl, rest, rfl, -, -⟩
  · -- an excluded field: the key is past it
    rcases hr with hgt | ⟨-, hend⟩
    · simpa [Interval.AtOrAbove] using (hdir.neg_iff s y).mpr (scanCmp_eq_gt_iff.mp hgt)
    · simp at hend
  · -- an included field: the key is not below it
    have hge : scanCmp cmp e y s ≠ .lt := by
      rcases hr with h | ⟨h, -⟩ <;> simp [h]
    simpa [Interval.AtOrAbove] using (hdir.not_lt y s).mp (Int.not_lt.mpr (scanCmp_ne_lt_iff.mp hge))

/-- A key that does not reach the seek key from field `i` on is, at some field of the suffix,
below the field of the seek key there, or equal to it with the field excluded. -/
theorem exists_below_of_not_reaches_suffix (ts : List Int) (key : List β) (k : Nat) :
    ∀ i gs excl, appendSuffixFrom sp i k = .ok gs → suffixExclusiveFrom sp i k = .ok excl →
      i + k ≤ ts.length → i + k ≤ key.length →
      ¬ SkipScan.Reaches (scanCmp cmp) (!excl) (ts.drop i) (key.drop i) gs →
      ∃ j s incl e y, i ≤ j ∧ sp.keySuffix[j]? = some (some s) ∧
        sp.suffixInclusive[j]? = some incl ∧ ts[j]? = some e ∧ key[j]? = some y ∧
        ¬ Interval.AtOrAbove (dirCmp cmp e) s incl y := by
  induction k with
  | zero =>
    -- an empty suffix is an inclusive seek, which every key reaches
    intro i gs excl hgs hx _ _ hr
    simp only [appendSuffixFrom, suffixExclusiveFrom, pure_eq_ok, Except.ok.injEq] at hgs hx
    subst hgs hx
    simp at hr
  | succ k ih =>
    intro i gs excl hgs hx hts hkey hr
    obtain ⟨s, incl, hs, hincl, hstep⟩ := suffixFrom_succ_eq_ok hgs hx
    have hte : ts.drop i = ts[i] :: ts.drop (i + 1) := List.drop_eq_getElem_cons (by omega)
    have hye : key.drop i = key[i] :: key.drop (i + 1) := List.drop_eq_getElem_cons (by omega)
    have he : ts[i]? = some ts[i] := List.getElem?_eq_getElem (by omega)
    have hy : key[i]? = some key[i] := List.getElem?_eq_getElem (by omega)
    rw [hte, hye] at hr
    have hdir := hcmp.dirCmp_any ts[i]
    rcases hstep with ⟨rfl, rfl, rfl⟩ | ⟨rfl, rest, rfl, hrest, hx'⟩
    · -- an excluded field: the key is at or below it
      have hle : scanCmp cmp ts[i] key[i] s ≠ .gt := fun h => hr (.inl h)
      refine ⟨i, s, false, ts[i], key[i], le_rfl, hs, hincl, he, hy, ?_⟩
      simpa [Interval.AtOrAbove] using (hdir.not_lt s key[i]).mpr (scanCmp_ne_gt_iff.mp hle)
    · -- an included field: below it, or equal and short of the rest
      cases hcmpi : scanCmp cmp ts[i] key[i] s with
      | lt =>
        refine ⟨i, s, true, ts[i], key[i], le_rfl, hs, hincl, he, hy, ?_⟩
        simpa [Interval.AtOrAbove] using (hdir.not_le s key[i]).mpr (scanCmp_eq_lt_iff.mp hcmpi)
      | eq =>
        obtain ⟨j, s', incl', e', y', hij, h⟩ :=
          ih (i + 1) rest excl hrest hx' (by omega) (by omega) fun h => hr (.inr ⟨hcmpi, h⟩)
        exact ⟨j, s', incl', e', y', by omega, h⟩
      | gt => exact (hr (.inl hcmpi)).elim

end SeekKey

/-! ## The seeks of `MUST_ADVANCE` -/

section Seek

/-- At field `p` of keys at or after each other from `p` on, the later key is not below. -/
theorem dirCmp_le_of_lexLe_drop {dirs : List Int} {key key' : List β} {p : Nat}
    (hle : SkipScan.LexLe (scanCmp cmp) (dirs.drop p) (key.drop p) (key'.drop p))
    (hd : p < dirs.length) (hk : p < key.length) (hk' : p < key'.length) :
    dirCmp cmp dirs[p] key[p] key'[p] ≤ 0 := by
  rw [List.drop_eq_getElem_cons hd, List.drop_eq_getElem_cons hk,
    List.drop_eq_getElem_cons hk'] at hle
  apply scanCmp_ne_gt_iff.mp
  rcases hle with h | ⟨h, -⟩ <;> simp [h]

variable (cmp) in
/-- What the seek to the seek key of `out` needs, when the scan is on `key`: the seek key is
built and no longer than the keys; `key` does not reach it, so the scan moves; and no key at or
after `key` that does not reach it is in the bounds, so the seek skips none. -/
def SeekSound (c : IndexBoundsChecker β) (key : List β) (out : IndexSeekPoint β)
    (forward : Bool) : Prop :=
  ∃ seekKey, makeKeyStringFromSeekPointForSeek out forward = .ok seekKey ∧
    seekKey.1.length ≤ c.fields.length ∧
    ¬ SkipScan.Reaches (scanCmp cmp) (reachesAtEnd forward seekKey.2) c.expectedDirection key
      seekKey.1 ∧
    ∀ key', key'.length = c.fields.length →
      SkipScan.LexLe (scanCmp cmp) c.expectedDirection key key' →
      ¬ SkipScan.Reaches (scanCmp cmp) (reachesAtEnd forward seekKey.2) c.expectedDirection key'
        seekKey.1 →
      ¬ InBounds cmp c key'

variable (hcmp : TotalPreorder cmp) {c : IndexBoundsChecker β} (hc : Fits cmp c) {key : List β}
  (hkey : key.length = c.fields.length) {out : IndexSeekPoint β} (forward : Bool)
include hcmp hc hkey

/-- The seek past a field beyond every interval: to the key up to that field, after all keys
that start with it. -/
theorem seekSound_of_pastAll (hexcl : out.prefixExclusive = true) (hpos : 0 < out.prefixLen)
    (hp : out.prefixLen < c.fields.length) (hkeyPre : out.keyPrefix = key)
    (hpast : PastAll cmp c key out.prefixLen) : SeekSound cmp c key out forward := by
  have hT := scanCmp_transCmp hcmp
  have hdirs := hc.length_expectedDirection
  refine ⟨_, makeKeyString_of_prefixExclusive forward hexcl (by rw [hkeyPre]; omega) hpos,
    by simp [hkeyPre]; omega, ?_, ?_⟩
  · -- `key` is equal to the seek key on all of its fields, and the seek is exclusive
    intro hr
    rw [reachesAtEnd_discriminator, hkeyPre, ← List.append_nil (key.take _),
      SkipScan.reaches_take_append_iff hT [] _ (by omega) (by omega)] at hr
    simp at hr
  · intro key' hlen' hle hr
    rw [reachesAtEnd_discriminator, hkeyPre, ← List.append_nil (key.take _)] at hr
    obtain ⟨hle', -⟩ := SkipScan.LexLe.drop_of_not_reaches hT [] _ hle hr (by omega) (by omega)
    -- field `prefixLen` of `key'` is at or past that of `key`, which is past every interval
    rintro ⟨-, hin⟩
    have hoil : c.fields[out.prefixLen]? = some c.fields[out.prefixLen] :=
      List.getElem?_eq_getElem hp
    have he : c.expectedDirection[out.prefixLen]? = some c.expectedDirection[out.prefixLen] :=
      List.getElem?_eq_getElem (by omega)
    have hy : key'[out.prefixLen]? = some key'[out.prefixLen] := List.getElem?_eq_getElem (by omega)
    exact hpast _ _ _ hoil he (List.getElem?_eq_getElem (by omega)) _
      (dirCmp_le_of_lexLe_drop hle' (by omega) (by omega) (by omega)) (hin _ _ _ _ hoil he hy)

/-- The seek to the starts of the current intervals from a field behind its interval: to the key
up to that field, followed by the starts. -/
theorem seekSound_of_behindFrom (hexcl : out.prefixExclusive = false)
    (hp : out.prefixLen < c.fields.length) (hkeyPre : out.keyPrefix = key)
    (hstarts : SuffixAtStarts c out out.prefixLen) (hbehind : BehindFrom cmp c key out.prefixLen) :
    SeekSound cmp c key out forward := by
  have hT := scanCmp_transCmp hcmp
  have hdirs := hc.length_expectedDirection
  obtain ⟨hks, hsi, hat⟩ := hstarts
  -- every field of the suffix is the start of its field's current interval
  have hfields : ∀ j, out.prefixLen ≤ j → j < out.prefixLen + (out.keySuffix.length - out.prefixLen) →
      ∃ s incl, out.keySuffix[j]? = some (some s) ∧ out.suffixInclusive[j]? = some incl := by
    intro j hpj hj
    obtain ⟨oil, cur, e, I, hoil, hcur, -, hI⟩ := hc.exists_field (j := j) (by omega)
    obtain ⟨h₁, h₂⟩ := hat j oil cur I hpj hoil hcur hI
    exact ⟨_, _, h₁, h₂⟩
  obtain ⟨gs, excl, hgs, hx, hglen⟩ := suffixFrom_ok (out.keySuffix.length - out.prefixLen) _ hfields
  refine ⟨_, makeKeyString_of_suffix forward hexcl (by rw [hkeyPre]; omega) (by rw [hks, hsi]) hx hgs,
    by simp [hkeyPre]; omega, ?_, ?_⟩
  · -- field `prefixLen` of `key` is behind the start of its interval
    intro hr
    rw [reachesAtEnd_discriminator, hkeyPre,
      SkipScan.reaches_take_append_iff hT gs _ (by omega) (by omega)] at hr
    obtain ⟨oil, cur, e, I, hoil, hcur, he, hI⟩ := hc.exists_field hp
    obtain ⟨hs, hincl⟩ := hat _ oil cur I le_rfl hoil hcur hI
    have hx' : key[out.prefixLen]? = some key[out.prefixLen] := List.getElem?_eq_getElem (by omega)
    obtain ⟨k, hk⟩ : ∃ k, out.keySuffix.length - out.prefixLen = k + 1 :=
      ⟨_, (Nat.succ_pred_eq_of_pos (by omega)).symm⟩
    rw [hk] at hgs hx
    rw [List.drop_eq_getElem_cons (l := c.expectedDirection) (by omega),
      List.drop_eq_getElem_cons (l := key) (by omega)] at hr
    have he' : c.expectedDirection[out.prefixLen] = e := (List.getElem?_eq_some_iff.mp he).2
    rw [he'] at hr
    exact ((hbehind _ oil cur e I le_rfl hoil hcur he hI).1 _ rfl hx').1
      (atOrAbove_of_reaches_suffix hcmp hgs hx hs hincl hr)
  · intro key' hlen' hle hr
    rw [reachesAtEnd_discriminator, hkeyPre] at hr
    obtain ⟨hle', hr'⟩ := SkipScan.LexLe.drop_of_not_reaches hT gs _ hle hr (by omega) (by omega)
    obtain ⟨j, s, incl, e, y, hpj, hs, hincl, he, hy, hbelow⟩ :=
      exists_below_of_not_reaches_suffix hcmp c.expectedDirection key' _ _ gs excl hgs hx
        (by omega) (by omega) hr'
    -- field `j` of `key'` is below the start of its current interval
    rintro ⟨-, hin⟩
    have hj : j < c.fields.length := hks ▸ (List.getElem?_eq_some_iff.mp hs).1
    obtain ⟨oil, cur, e', I, hoil, hcur, he', hI⟩ := hc.exists_field hj
    obtain ⟨hs', hincl'⟩ := hat j oil cur I hpj hoil hcur hI
    simp only [hs, hincl, he, Option.some.injEq] at hs' hincl' he'
    subst hs' hincl' he'
    have hb := hbehind j oil cur e I hpj hoil hcur he hI
    rcases Nat.eq_or_lt_of_le hpj with rfl | hlt
    · have hx' : key[out.prefixLen]? = some key[out.prefixLen] := List.getElem?_eq_getElem (by omega)
      have hxy := dirCmp_le_of_lexLe_drop hle' (by omega) (by omega) (by omega)
      have he'' : c.expectedDirection[out.prefixLen] = e := (List.getElem?_eq_some_iff.mp he).2
      have hy' : key'[out.prefixLen] = y := (List.getElem?_eq_some_iff.mp hy).2
      rw [he'', hy'] at hxy
      exact (hb.1 _ rfl hx').2 y hxy hbelow (hin _ oil e y hoil he hy)
    · exact hb.2 hlt y hbelow (hin j oil e y hoil he hy)

/-- Every `MUST_ADVANCE` answer asks for a seek that moves the scan and skips no key in the
bounds. -/
theorem seekSound_of_mustAdvance (hmust : MustAdvance cmp c key out) :
    SeekSound cmp c key out forward := by
  obtain ⟨hkeyPre, hp, hseek⟩ := hmust
  rcases hseek with ⟨hexcl, hstarts, hbehind⟩ | ⟨hexcl, hpos, hpast⟩
  · exact seekSound_of_behindFrom hcmp hc hkey forward hexcl hp hkeyPre hstarts hbehind
  · exact seekSound_of_pastAll hcmp hc hkey forward hexcl hpos hp hkeyPre hpast

end Seek

/-! ## The first seek -/

section Start

/-- The loop of `getStartSeekPoint` from field `i`, on lists that are not empty: it points each
field of the suffix from `i` on at the start of its field's first interval, and leaves the fields
before `i`. -/
theorem getStartSeekPointFrom_spec (fields : List (OrderedIntervalList β))
    (hnonempty : ∀ oil ∈ fields, oil.intervals ≠ []) :
    ∀ (i : Nat) (out : IndexSeekPoint β), i + fields.length ≤ out.keySuffix.length →
      i + fields.length ≤ out.suffixInclusive.length →
      ∃ ks si, getStartSeekPointFrom i fields out =
          (true, { out with keySuffix := ks, suffixInclusive := si }) ∧
        ks.length = out.keySuffix.length ∧ si.length = out.suffixInclusive.length ∧
        (∀ j < i, ks[j]? = out.keySuffix[j]? ∧ si[j]? = out.suffixInclusive[j]?) ∧
        ∀ (j : Nat) (oil : OrderedIntervalList β) (I : Interval β), fields[j]? = some oil →
          oil.intervals[0]? = some I →
          ks[i + j]? = some (some I.start) ∧ si[i + j]? = some I.startInclusive := by
  induction fields with
  | nil =>
    intro i out _ _
    exact ⟨out.keySuffix, out.suffixInclusive, rfl, rfl, rfl, fun _ _ => ⟨rfl, rfl⟩, by simp⟩
  | cons oil rest ih =>
    intro i out hks hsi
    obtain ⟨first, more, hfirst⟩ := List.exists_cons_of_ne_nil (hnonempty oil List.mem_cons_self)
    obtain ⟨ks, si, hrun, hks', hsi', hbefore, hfrom⟩ :=
      ih (fun oil' h => hnonempty oil' (List.mem_cons_of_mem oil h)) (i + 1)
        { out with keySuffix := out.keySuffix.set i (some first.start),
                   suffixInclusive := out.suffixInclusive.set i first.startInclusive }
        (by simp at hks ⊢; omega) (by simp at hsi ⊢; omega)
    refine ⟨ks, si, ?_, by simpa using hks', by simpa using hsi', fun j hj => ?_,
      fun j oil' I hoil' hI => ?_⟩
    · simp only [getStartSeekPointFrom, hfirst]
      exact hrun
    · obtain ⟨h₁, h₂⟩ := hbefore j (by omega)
      simp only [List.getElem?_set_ne (Nat.ne_of_lt hj).symm] at h₁ h₂
      exact ⟨h₁, h₂⟩
    · cases j with
      | zero =>
        -- field `i` was set here, and the later loop leaves it
        simp only [List.getElem?_cons_zero, Option.some.injEq] at hoil'
        subst hoil'
        rw [hfirst, List.getElem?_cons_zero, Option.some.injEq] at hI
        subst hI
        obtain ⟨h₁, h₂⟩ := hbefore i (Nat.lt_succ_self i)
        simp only [List.length_cons] at hks hsi
        rw [Nat.add_zero, h₁, h₂, List.getElem?_set_self (by omega),
          List.getElem?_set_self (by omega)]
        exact ⟨rfl, rfl⟩
      | succ j =>
        rw [show i + (j + 1) = i + 1 + j by omega]
        exact hfrom j oil' I hoil' hI

/-- `getStartSeekPoint` on lists that are not empty: a seek point with no prefix whose suffix is
the start of every field's first interval. -/
theorem getStartSeekPoint_spec {c : IndexBoundsChecker β}
    (hnonempty : ∀ oil ∈ c.fields, oil.intervals ≠ []) (out : IndexSeekPoint β) :
    ∃ out', getStartSeekPoint c out = (true, out') ∧ out'.prefixLen = 0 ∧
      out'.prefixExclusive = false ∧ out'.keySuffix.length = c.fields.length ∧
      out'.suffixInclusive.length = c.fields.length ∧
      ∀ (j : Nat) (oil : OrderedIntervalList β) (I : Interval β), c.fields[j]? = some oil →
        oil.intervals[0]? = some I →
        out'.keySuffix[j]? = some (some I.start) ∧ out'.suffixInclusive[j]? = some I.startInclusive := by
  obtain ⟨ks, si, hrun, hks, hsi, -, hfrom⟩ := getStartSeekPointFrom_spec c.fields hnonempty 0
    { out with prefixLen := 0, prefixExclusive := false,
               keySuffix := resize out.keySuffix c.fields.length none,
               suffixInclusive := resize out.suffixInclusive c.fields.length false }
    (by simp [length_resize]) (by simp [length_resize])
  refine ⟨_, hrun, rfl, rfl, by simpa [length_resize] using hks, by simpa [length_resize] using hsi,
    fun j oil I hoil hI => ?_⟩
  simpa using hfrom j oil I hoil hI

variable (hcmp : TotalPreorder cmp) {c : IndexBoundsChecker β} (hc : Fits cmp c)
include hcmp hc

/-- The first seek of the scan, to the starts of the first intervals: its seek key is built, no
longer than the keys, and no key that does not reach it is in the bounds. -/
theorem startSeek_sound (out : IndexSeekPoint β) (forward : Bool) :
    ∃ out' seekKey, getStartSeekPoint c out = (true, out') ∧
      makeKeyStringFromSeekPointForSeek out' forward = .ok seekKey ∧
      seekKey.1.length ≤ c.fields.length ∧
      ∀ key', key'.length = c.fields.length →
        ¬ SkipScan.Reaches (scanCmp cmp) (reachesAtEnd forward seekKey.2) c.expectedDirection key'
          seekKey.1 →
        ¬ InBounds cmp c key' := by
  obtain ⟨out', hget, hlen0, hexcl, hks, hsi, hat⟩ := getStartSeekPoint_spec hc.nonempty out
  -- every field of the suffix is the start of its field's first interval
  have hfirst : ∀ j, j < c.fields.length → ∃ oil I, c.fields[j]? = some oil ∧
      oil.intervals[0]? = some I := by
    intro j hj
    obtain ⟨first, more, hfirst⟩ :=
      List.exists_cons_of_ne_nil (hc.nonempty _ (List.getElem_mem hj))
    exact ⟨_, first, List.getElem?_eq_getElem hj, by simp [hfirst]⟩
  have hfields : ∀ j, out'.prefixLen ≤ j →
      j < out'.prefixLen + (out'.keySuffix.length - out'.prefixLen) →
      ∃ s incl, out'.keySuffix[j]? = some (some s) ∧ out'.suffixInclusive[j]? = some incl := by
    intro j _ hj
    obtain ⟨oil, I, hoil, hI⟩ := hfirst j (by omega)
    obtain ⟨h₁, h₂⟩ := hat j oil I hoil hI
    exact ⟨_, _, h₁, h₂⟩
  obtain ⟨gs, excl, hgs, hx, hglen⟩ := suffixFrom_ok _ _ hfields
  refine ⟨out', _, hget,
    makeKeyString_of_suffix forward hexcl (by omega) (by rw [hks, hsi]) hx hgs,
    by simp [hlen0]; omega, fun key' hlen' hr => ?_⟩
  rw [reachesAtEnd_discriminator, hlen0, List.take_zero, List.nil_append] at hr
  rw [hlen0] at hgs hx
  obtain ⟨j, s, incl, e, y, -, hs, hincl, he, hy, hbelow⟩ :=
    exists_below_of_not_reaches_suffix hcmp c.expectedDirection key' _ 0 gs excl hgs hx
      (by rw [hc.length_expectedDirection]; omega) (by omega) (by simpa using hr)
  -- field `j` of `key'` is below the start of the first interval, so in none
  rintro ⟨-, hin⟩
  have hj : j < c.fields.length := hks ▸ (List.getElem?_eq_some_iff.mp hs).1
  obtain ⟨oil, I, hoil, hI⟩ := hfirst j hj
  obtain ⟨hs', hincl'⟩ := hat j oil I hoil hI
  simp only [hs, hincl, Option.some.injEq] at hs' hincl'
  subst hs' hincl'
  obtain ⟨K, hK, hKy⟩ := hin j oil e y hoil he hy
  exact (hc.ascending j oil e hoil he).not_contains_of_below_first
    (hcmp.dirCmp (hc.direction j e he)) hI hbelow K hK hKy

end Start

/-! ## The calls of `doWork` -/

section DoWork

variable (cursor : IndexCursor β) {c : IndexBoundsChecker β} {sp : IndexSeekPoint β}

/-- The calls from a scan at the end of the keys: the first ends the scan. -/
theorem runToEOF_gettingNext_nil (n : Nat) :
    IndexScan.runToEOF cmp cursor (n + 1) ⟨c, sp, .GETTING_NEXT, []⟩ = .ok (some []) := rfl

/-- The calls from a scan that walks on to a key: the first asks the checker, and hands the key
up, ends the scan, or leaves a seek for the next call. -/
theorem runToEOF_gettingNext_cons (n : Nat) {k : List β} {R : List (List β)} {state : KeyState}
    {c' : IndexBoundsChecker β} {sp' : IndexSeekPoint β}
    (hcheck : checkKey cmp c k sp = .ok (state, c', sp')) :
    IndexScan.runToEOF cmp cursor (n + 1) ⟨c, sp, .GETTING_NEXT, k :: R⟩ =
      match state with
      | .VALID =>
        (IndexScan.runToEOF cmp cursor n ⟨c', sp', .GETTING_NEXT, R⟩).map (Option.map (k :: ·))
      | .DONE => .ok (some [])
      | .MUST_ADVANCE => IndexScan.runToEOF cmp cursor n ⟨c', sp', .NEED_SEEK, R⟩ := by
  cases state <;>
    simp [IndexScan.runToEOF, IndexScan.doWork, IndexScan.readKey, IndexCursor.next,
      IndexScan.checkReadKey, hcheck]

/-- A call after `MUST_ADVANCE` seeks, and then goes on as a call that walks on from the keys the
seek lands among. -/
theorem doWork_needSeek {R : List (List β)} {seekKey : List β × Discriminator}
    (hseek : makeKeyStringFromSeekPointForSeek sp cursor.forward = .ok seekKey) :
    IndexScan.doWork cmp cursor ⟨c, sp, .NEED_SEEK, R⟩ =
      IndexScan.doWork cmp cursor
        ⟨c, sp, .GETTING_NEXT, cursor.keys.dropWhile fun key => !cursor.atOrAfter cmp seekKey key⟩ := by
  simp only [IndexScan.doWork, IndexScan.readKey, hseek, ok_bind, IndexCursor.seek,
    IndexCursor.next]
  split <;> rfl

theorem runToEOF_needSeek (n : Nat) {R : List (List β)} {seekKey : List β × Discriminator}
    (hseek : makeKeyStringFromSeekPointForSeek sp cursor.forward = .ok seekKey) :
    IndexScan.runToEOF cmp cursor n ⟨c, sp, .NEED_SEEK, R⟩ =
      IndexScan.runToEOF cmp cursor n
        ⟨c, sp, .GETTING_NEXT, cursor.keys.dropWhile fun key => !cursor.atOrAfter cmp seekKey key⟩ := by
  cases n with
  | zero => rfl
  | succ n => simp only [IndexScan.runToEOF, doWork_needSeek cursor hseek]

/-- The first call of a scan seeks to the start of the bounds, and goes on as a call that walks
on from the keys the seek lands among. -/
theorem runToEOF_init (n : Nat) {R : List (List β)} {sp' : IndexSeekPoint β}
    {seekKey : List β × Discriminator} (hget : getStartSeekPoint c sp = (true, sp'))
    (hseek : makeKeyStringFromSeekPointForSeek sp' cursor.forward = .ok seekKey) :
    IndexScan.runToEOF cmp cursor n ⟨c, sp, .INITIALIZING, R⟩ =
      IndexScan.runToEOF cmp cursor n
        ⟨c, sp', .GETTING_NEXT, cursor.keys.dropWhile fun key => !cursor.atOrAfter cmp seekKey key⟩ := by
  cases n with
  | zero => rfl
  | succ n =>
    have hdo : IndexScan.doWork cmp cursor ⟨c, sp, .INITIALIZING, R⟩ =
        IndexScan.doWork cmp cursor ⟨c, sp', .GETTING_NEXT,
          cursor.keys.dropWhile fun key => !cursor.atOrAfter cmp seekKey key⟩ := by
      simp only [IndexScan.doWork, IndexScan.readKey, IndexScan.initIndexScan, hget, hseek,
        ok_bind, Bool.not_true, Bool.false_eq_true, if_false, IndexCursor.seek, IndexCursor.next]
      split <;> rfl
    simp only [IndexScan.runToEOF, hdo]

end DoWork

/-! ## The scan as a `SkipScan` -/

section Verdict

variable (cmp) in
/-- What a call of `doWork` does with the key it read, as a verdict of `SkipScan.run`: hand the
key up on `VALID`, seek on `MUST_ADVANCE`, and stop on `DONE` or an error. -/
def scanVerdict (forward : Bool) (st : IndexBoundsChecker β × IndexSeekPoint β) (key : List β) :
    SkipScan.Verdict (IndexBoundsChecker β × IndexSeekPoint β) (List β × Discriminator) :=
  match checkKey cmp st.1 key st.2 with
  | .ok (.VALID, c, out) => .use (c, out)
  | .ok (.MUST_ADVANCE, c, out) =>
    match makeKeyStringFromSeekPointForSeek out forward with
    | .ok seekKey => .seek seekKey (c, out)
    | .error _ => .stop
  | _ => .stop

variable (cmp) in
/-- A key reaches a seek key in the order of the scan. -/
def scanReach (dirs : List Int) (forward : Bool) (seekKey : List β × Discriminator)
    (key : List β) : Bool :=
  decide (SkipScan.Reaches (scanCmp cmp) (reachesAtEnd forward seekKey.2) dirs key seekKey.1)

variable (cmp) in
/-- The checker along the scan: it keeps its invariant, and the bounds and directions of the
checker the scan was built with. -/
structure ScanInv (c₀ : IndexBoundsChecker β) (st : IndexBoundsChecker β × IndexSeekPoint β) :
    Prop where
  fits : Fits cmp st.1
  fields : st.1.fields = c₀.fields
  expectedDirection : st.1.expectedDirection = c₀.expectedDirection

variable (hcmp : TotalPreorder cmp) {c₀ : IndexBoundsChecker β} (hn : 0 < c₀.fields.length)
  (forward : Bool)
include hcmp hn

/-- What one call does with a key of the bounds' length, from a checker along the scan: the
checker answers without error and stays along the scan; on `MUST_ADVANCE` the seek key is built,
and the seek is sound. -/
theorem scanVerdict_cases {st : IndexBoundsChecker β × IndexSeekPoint β} (hinv : ScanInv cmp c₀ st)
    {key : List β} (hkey : key.length = c₀.fields.length) :
    ∃ state c' out', checkKey cmp st.1 key st.2 = .ok (state, c', out') ∧
      ScanInv cmp c₀ (c', out') ∧ Answer cmp c' key out' state ∧
      ((state = .VALID ∧ scanVerdict cmp forward st key = .use (c', out')) ∨
        (state = .MUST_ADVANCE ∧ SeekSound cmp c' key out' forward ∧
          ∃ seekKey, makeKeyStringFromSeekPointForSeek out' forward = .ok seekKey ∧
            seekKey.1.length ≤ c₀.fields.length ∧
            scanVerdict cmp forward st key = .seek seekKey (c', out')) ∨
        (state = .DONE ∧ scanVerdict cmp forward st key = .stop)) := by
  have hkey' : key.length = st.1.fields.length := by rw [hinv.fields]; exact hkey
  obtain ⟨state, c', out', hcheck, hc', hfields, hdirs, hans⟩ :=
    checkKey_spec hcmp hinv.fits (by rw [hinv.fields]; exact hn) hkey' st.2
  have hinv' : ScanInv cmp c₀ (c', out') :=
    ⟨hc', hfields.trans hinv.fields, hdirs.trans hinv.expectedDirection⟩
  refine ⟨state, c', out', hcheck, hinv', hans, ?_⟩
  cases state with
  | VALID => exact .inl ⟨rfl, by simp [scanVerdict, hcheck]⟩
  | MUST_ADVANCE =>
    have hsound := seekSound_of_mustAdvance hcmp hc' (by rw [hfields]; exact hkey') forward hans
    have ⟨seekKey, hmk, hlen, _⟩ := hsound
    refine .inr (.inl ⟨rfl, hsound, seekKey, hmk, by rwa [← hinv'.fields], ?_⟩)
    simp [scanVerdict, hcheck, hmk]
  | DONE => exact .inr (.inr ⟨rfl, by simp [scanVerdict, hcheck]⟩)

/-- `checkKey` answers as `SkipScan.run_eq_filter` needs, with the keys that `isValidKey`
accepts for the keys the scan must return. -/
theorem scanVerdict_sound (hc₀ : Fits cmp c₀) (keys : List (List β))
    (hkeys : ∀ k ∈ keys, k.length = c₀.fields.length) :
    SkipScan.Sound keys (scanVerdict cmp forward) (scanReach cmp c₀.expectedDirection forward)
      (SkipScan.LexLe (scanCmp cmp) c₀.expectedDirection)
      (fun k => isValidKey cmp c₀ k = .ok true) (ScanInv cmp c₀) where
  use {st st' k} hk hinv hverdict := by
    obtain ⟨state, c', out', -, hinv', hans, hcases⟩ :=
      scanVerdict_cases hcmp hn forward hinv (hkeys k hk)
    rcases hcases with ⟨rfl, hv⟩ | ⟨-, -, seekKey, -, -, hv⟩ | ⟨-, hv⟩ <;> rw [hv] at hverdict <;>
      cases hverdict
    -- `VALID`: every field is in its current interval
    refine ⟨?_, hinv'⟩
    rw [isValidKey_eq_ok_iff hcmp hc₀ (hkeys k hk), ← inBounds_congr hinv'.fields hinv'.expectedDirection]
    exact inBounds_of_within hcmp hinv'.fits (by rw [hinv'.fields]; exact hkeys k hk) hans
  seek {st st' k target} hk hinv hverdict := by
    obtain ⟨state, c', out', -, hinv', -, hcases⟩ :=
      scanVerdict_cases hcmp hn forward hinv (hkeys k hk)
    rcases hcases with ⟨-, hv⟩ | ⟨-, hsound, seekKey, hmk, -, hv⟩ | ⟨-, hv⟩ <;>
      rw [hv] at hverdict <;> cases hverdict
    obtain ⟨seekKey', hmk', -, hnot, hskip⟩ := hsound
    rw [hmk, Except.ok.injEq] at hmk'
    subst hmk'
    refine ⟨by simpa [scanReach, ← hinv'.expectedDirection] using hnot, hinv', fun k' hk' hle hr => ?_⟩
    rw [isValidKey_eq_ok_iff hcmp hc₀ (hkeys k' hk'),
      ← inBounds_congr hinv'.fields hinv'.expectedDirection]
    exact hskip k' (by rw [hinv'.fields]; exact hkeys k' hk')
      (by rwa [hinv'.expectedDirection]) (by simpa [scanReach, ← hinv'.expectedDirection] using hr)
  stop {st k} hk hinv hverdict := by
    obtain ⟨state, c', out', -, hinv', hans, hcases⟩ :=
      scanVerdict_cases hcmp hn forward hinv (hkeys k hk)
    rcases hcases with ⟨-, hv⟩ | ⟨-, -, seekKey, -, -, hv⟩ | ⟨rfl, hv⟩ <;> rw [hv] at hverdict <;>
      cases hverdict
    -- `DONE`: no key from here on is in the bounds
    intro k' hk' hle
    rw [isValidKey_eq_ok_iff hcmp hc₀ (hkeys k' hk'),
      ← inBounds_congr hinv'.fields hinv'.expectedDirection]
    exact not_inBounds_of_done hinv'.fits (by rw [hinv'.fields]; exact hkeys k hk) hans k'
      (by rwa [hinv'.expectedDirection])

end Verdict

/-! ## The whole scan -/

section Run

variable (cursor : IndexCursor β) {c₀ : IndexBoundsChecker β}
  (hkeys : ∀ k ∈ cursor.keys, k.length = c₀.fields.length)
  (hord : cursor.ordering.length = c₀.fields.length)
  (hdirs : cursor.scanDirections = c₀.expectedDirection)

include hkeys hord hdirs in
/-- The cursor's seek to a seek key no longer than the keys lands where the scan jumps. -/
theorem seek_eq_jump {seekKey : List β × Discriminator} (hlen : seekKey.1.length ≤ c₀.fields.length) :
    (cursor.keys.dropWhile fun key => !cursor.atOrAfter cmp seekKey key) =
      cursor.keys.dropWhile fun key => !scanReach cmp c₀.expectedDirection cursor.forward seekKey key := by
  apply SkipScan.dropWhile_congr
  intro key hkey
  have h := @atOrAfter_iff_reaches β cmp cursor seekKey key (by rw [hkeys key hkey]; exact hlen)
    (by omega)
  rw [hdirs] at h
  have heq : cursor.atOrAfter cmp seekKey key =
      scanReach cmp c₀.expectedDirection cursor.forward seekKey key := by
    rw [Bool.eq_iff_iff, h, scanReach, decide_eq_true_iff]
  rw [heq]

variable (hcmp : TotalPreorder cmp) (hn : 0 < c₀.fields.length)
include hcmp hn hkeys hord hdirs

/-- `doWork` simulates `SkipScan.run`: by induction on the fuel of the run, with two calls for
each step of the run, the calls from a scan that walks on return what the run returns. -/
theorem runToEOF_of_run :
    ∀ (fuel n : Nat) (st : IndexBoundsChecker β × IndexSeekPoint β) (R out : List (List β)),
      2 * fuel ≤ n → ScanInv cmp c₀ st → (∀ k ∈ R, k ∈ cursor.keys) →
      SkipScan.run cursor.keys (scanVerdict cmp cursor.forward)
          (scanReach cmp c₀.expectedDirection cursor.forward) fuel st R = some out →
      IndexScan.runToEOF cmp cursor n ⟨st.1, st.2, .GETTING_NEXT, R⟩ = .ok (some out) := by
  intro fuel
  induction fuel with
  | zero => intro n st R out _ _ _ hrun; cases hrun
  | succ fuel ih =>
    intro n st R out hfuel hinv hR hrun
    obtain ⟨n, rfl⟩ : ∃ n', n = n' + 1 := ⟨n - 1, by omega⟩
    cases R with
    | nil =>
      simp only [SkipScan.run, Option.some.injEq] at hrun
      subst hrun
      exact runToEOF_gettingNext_nil cursor n
    | cons k R =>
      obtain ⟨state, c', out', hcheck, hinv', -, hcases⟩ :=
        scanVerdict_cases hcmp hn cursor.forward hinv (hkeys k (hR k List.mem_cons_self))
      rw [runToEOF_gettingNext_cons cursor n hcheck]
      rcases hcases with ⟨rfl, hv⟩ | ⟨rfl, -, seekKey, hmk, hlen, hv⟩ | ⟨rfl, hv⟩ <;>
        simp only [SkipScan.run, hv] at hrun
      · -- `VALID`: the key is handed up, and the scan walks on
        obtain ⟨rest, hrest, rfl⟩ := Option.map_eq_some_iff.mp hrun
        rw [ih n (c', out') R rest (by omega) hinv' (fun x hx => hR x (List.mem_cons_of_mem k hx))
          hrest]
        rfl
      · -- `MUST_ADVANCE`: the next call seeks, to where the run jumps
        obtain ⟨n, rfl⟩ : ∃ n', n = n' + 1 := ⟨n - 1, by omega⟩
        rw [runToEOF_needSeek cursor (n + 1) hmk, seek_eq_jump cursor hkeys hord hdirs hlen]
        exact ih (n + 1) (c', out') _ out (by omega) hinv'
          (fun x hx => (List.dropWhile_suffix _).subset hx) hrun
      · -- `DONE`: the scan ends
        simp only [Option.some.injEq] at hrun
        subst hrun
        rfl

end Run

/-- The scan of `IndexScan` over checked bounds returns exactly the keys in the bounds: with two
calls for each key and two more, a scan over bounds that `isValidFor` accepts in a direction of
the scan, whose lists are not empty, and a cursor that walks keys of the bounds' length sorted in
the checker's directions, returns the keys that `isValidKey` accepts, in the cursor's order. -/
theorem runToEOF_eq_filter (hcmp : TotalPreorder cmp) {fields : List (OrderedIntervalList β)}
    {keyPattern : List (String × Int)} {direction : Int}
    (hvalid : IndexBounds.isValidFor cmp fields keyPattern direction = true)
    (hdirection : direction = 1 ∨ direction = -1) (hnonempty : ∀ oil ∈ fields, oil.intervals ≠ [])
    (hsize : ∀ oil ∈ fields, oil.intervals.length < 2 ^ 64) (hn : 0 < fields.length)
    (cursor : IndexCursor β) (hkeys : ∀ k ∈ cursor.keys, k.length = fields.length)
    (hord : cursor.ordering.length = fields.length)
    (hdirs : cursor.scanDirections = (make fields keyPattern direction).expectedDirection)
    (hsorted : cursor.keys.Pairwise (SkipScan.LexLe (scanCmp cmp) cursor.scanDirections))
    {fuel : Nat} (hfuel : 2 * cursor.keys.length + 2 ≤ fuel) :
    IndexScan.runToEOF cmp cursor fuel (IndexScan.init fields keyPattern direction) =
      .ok (some (cursor.keys.filter fun k =>
        isValidKey cmp (make fields keyPattern direction) k = .ok true)) := by
  have hc₀ : Fits cmp (make fields keyPattern direction) :=
    Fits.make hcmp hvalid hdirection hnonempty hsize
  have hT := scanCmp_transCmp hcmp
  obtain ⟨sp, seekKey, hget, hmk, hlen, hstart⟩ :=
    startSeek_sound hcmp hc₀ ⟨[], 0, false, [], []⟩ cursor.forward
  have hsound := scanVerdict_sound hcmp hn cursor.forward hc₀ cursor.keys hkeys
  rw [hdirs] at hsorted
  -- no key short of the start seek is in the bounds
  have hbefore : ∀ k ∈ cursor.keys,
      scanReach cmp (make fields keyPattern direction).expectedDirection cursor.forward seekKey k =
        false → ¬ isValidKey cmp (make fields keyPattern direction) k = .ok true := by
    intro k hk hr
    rw [isValidKey_eq_ok_iff hcmp hc₀ (hkeys k hk)]
    exact hstart k (hkeys k hk) (by simpa [scanReach] using hr)
  have hinv : ScanInv cmp (make fields keyPattern direction) (make fields keyPattern direction, sp) :=
    ⟨hc₀, rfl, rfl⟩
  -- the run from the start seek returns the keys of the bounds
  have hrun := SkipScan.run_seek_eq_filter hsound hsorted
    (fun k _ => SkipScan.lexLe_refl hT _ k)
    (fun target k _ k' _ hle hr => by
      simp only [scanReach, decide_eq_true_eq] at hr ⊢
      exact SkipScan.Reaches.of_lexLe hT hle hr)
    hbefore (Nat.lt_succ_self cursor.keys.length) hinv
  rw [show IndexScan.init fields keyPattern direction =
      ⟨make fields keyPattern direction, ⟨[], 0, false, [], []⟩, .INITIALIZING, []⟩ from rfl,
    runToEOF_init cursor fuel hget hmk, seek_eq_jump cursor hkeys hord hdirs hlen]
  exact runToEOF_of_run cursor hkeys hord hdirs hcmp hn (cursor.keys.length + 1) fuel _ _ _
    (by omega) hinv (fun x hx => (List.dropWhile_suffix _).subset hx) hrun

/-! ## An index in the order of its key pattern -/

section Index

/-- The sign of a negated comparison is the other way round. -/
theorem ordOfInt_neg (a : Int) : ordOfInt (-a) = (ordOfInt a).swap := by
  rcases lt_trichotomy a 0 with h | rfl | h
  · rw [ordOfInt, ordOfInt, compare_gt_iff_gt.mpr (by omega), compare_lt_iff_lt.mpr h]
    rfl
  · rfl
  · rw [ordOfInt, ordOfInt, compare_lt_iff_lt.mpr (by omega), compare_gt_iff_gt.mpr h]
    rfl

/-- The directions of the scan of an index are those the checker expects. -/
theorem scanDirections_ofIndex {fields : List (OrderedIntervalList β)}
    {keyPattern : List (String × Int)} {direction : Int} (hdirection : direction = 1 ∨ direction = -1)
    (index : List (List β)) :
    (IndexCursor.ofIndex index keyPattern direction).scanDirections =
      (make fields keyPattern direction).expectedDirection := by
  simp only [IndexCursor.scanDirections, IndexCursor.ofIndex, makeOrdering, make, List.map_map]
  apply List.map_congr_left
  intro elt _
  rcases hdirection with rfl | rfl <;> split_ifs <;> simp_all <;> omega

variable (hcmp : TotalPreorder cmp)
include hcmp

/-- A field walked the other way compares the other way round. -/
theorem scanCmp_neg_swap (e : Int) (x y : β) : scanCmp cmp (e * -1) x y = scanCmp cmp e y x := by
  have := scanCmp_transCmp hcmp e
  calc scanCmp cmp (e * -1) x y = (scanCmp cmp e x y).swap := by
        rw [scanCmp, scanCmp, dirCmp, dirCmp, show e * -1 * cmp x y = -(e * cmp x y) by ring,
          ordOfInt_neg]
    _ = scanCmp cmp e y x := Std.OrientedCmp.eq_swap.symm

/-- Keys of the same length walked the other way are in the other order. -/
theorem lexLe_reverse_iff (os : List Int) :
    ∀ (xs ys : List β), xs.length = ys.length →
      (SkipScan.LexLe (scanCmp cmp) (os.map fun o => o * -1) xs ys ↔
        SkipScan.LexLe (scanCmp cmp) os ys xs) := by
  induction os with
  | nil => intro xs ys _; exact Iff.rfl
  | cons o os ih =>
    intro xs ys hlen
    cases xs with
    | nil =>
      cases ys with
      | nil => exact Iff.rfl
      | cons y ys => simp at hlen
    | cons x xs =>
      cases ys with
      | nil => simp at hlen
      | cons y ys =>
        show (_ ∨ (_ ∧ _)) ↔ (_ ∨ (_ ∧ _))
        rw [scanCmp_neg_swap hcmp, ih xs ys (by simpa using hlen)]

/-- An index whose keys are sorted by its `Ordering` is walked by its cursor in the order of the
scan. -/
theorem pairwise_ofIndex {keyPattern : List (String × Int)} {direction : Int} {m : Nat}
    (index : List (List β)) (hkeys : ∀ k ∈ index, k.length = m)
    (hsorted : index.Pairwise (SkipScan.LexLe (scanCmp cmp) (makeOrdering keyPattern))) :
    (IndexCursor.ofIndex index keyPattern direction).keys.Pairwise
      (SkipScan.LexLe (scanCmp cmp) (IndexCursor.ofIndex index keyPattern direction).scanDirections) := by
  by_cases hfwd : (direction == 1) = true
  · simpa [IndexCursor.ofIndex, IndexCursor.scanDirections, hfwd] using hsorted
  · -- a backward cursor walks the index from the end, each field the other way
    simp only [IndexCursor.ofIndex, IndexCursor.scanDirections, hfwd, Bool.false_eq_true, if_false]
    rw [List.pairwise_reverse]
    refine List.Pairwise.imp_of_mem (fun {a b} ha hb hab => ?_) hsorted
    exact (lexLe_reverse_iff hcmp _ b a (by rw [hkeys b hb, hkeys a ha])).mpr hab

/-- An index scan driven by `IndexBoundsChecker` returns exactly the keys in the bounds: over
bounds that `isValidFor` accepts for the key pattern in a direction of the scan, with a list that
is not empty for each field, and an index of keys of the key pattern's length sorted by its
`Ordering`, the calls of `doWork` from `init` until `IS_EOF`, two for each key and two more,
return the keys of the index that `isValidKey` accepts, in the order the cursor walks them. -/
theorem indexScan_returns_keys_in_bounds {fields : List (OrderedIntervalList β)}
    {keyPattern : List (String × Int)} {direction : Int}
    (hvalid : IndexBounds.isValidFor cmp fields keyPattern direction = true)
    (hdirection : direction = 1 ∨ direction = -1) (hnonempty : ∀ oil ∈ fields, oil.intervals ≠ [])
    (hsize : ∀ oil ∈ fields, oil.intervals.length < 2 ^ 64) (hn : 0 < fields.length)
    (index : List (List β)) (hkeys : ∀ k ∈ index, k.length = fields.length)
    (hsorted : index.Pairwise (SkipScan.LexLe (scanCmp cmp) (makeOrdering keyPattern)))
    {fuel : Nat} (hfuel : 2 * index.length + 2 ≤ fuel) :
    IndexScan.runToEOF cmp (IndexCursor.ofIndex index keyPattern direction) fuel
        (IndexScan.init fields keyPattern direction) =
      .ok (some ((IndexCursor.ofIndex index keyPattern direction).keys.filter fun k =>
        isValidKey cmp (make fields keyPattern direction) k = .ok true)) := by
  have hlen : keyPattern.length = fields.length := (isValidFor_getElem? hvalid).1
  -- the cursor walks the keys of the index, in one order or the other
  have hmem : ∀ k ∈ (IndexCursor.ofIndex index keyPattern direction).keys, k ∈ index := by
    intro k hk
    simp only [IndexCursor.ofIndex] at hk
    split_ifs at hk <;> simpa using hk
  have hcount : (IndexCursor.ofIndex index keyPattern direction).keys.length = index.length := by
    simp only [IndexCursor.ofIndex]
    split_ifs <;> simp
  refine runToEOF_eq_filter hcmp hvalid hdirection hnonempty hsize hn _
    (fun k hk => hkeys k (hmem k hk)) ?_ (scanDirections_ofIndex hdirection index)
    (pairwise_ofIndex hcmp index hkeys hsorted) (by omega)
  simp [IndexCursor.ofIndex, makeOrdering, hlen]

end Index

/-- An index `{a: 1, b: -1}` of `NumberInt` keys, in its order: `a` up, and `b` down. -/
def twoFieldIndex : List (List IndexKey) :=
  [[intKey 1, intKey 5], [intKey 1, intKey 3], [intKey 4, intKey 3], [intKey 6, intKey 4],
    [intKey 8, intKey 3]]

theorem indexScan_returns_keys_in_bounds_twoFields :
    IndexBounds.isValidFor (IndexKey.cmp noDecimalLib) twoFieldBounds [("a", 1), ("b", -1)] 1 = true ∧
      twoFieldIndex.Pairwise
        (SkipScan.LexLe (scanCmp (IndexKey.cmp noDecimalLib)) (makeOrdering [("a", 1), ("b", -1)])) ∧
      IndexScan.runToEOF (IndexKey.cmp noDecimalLib)
          (IndexCursor.ofIndex twoFieldIndex [("a", 1), ("b", -1)] 1) 12
          (IndexScan.init twoFieldBounds [("a", 1), ("b", -1)] 1) =
        .ok (some ((IndexCursor.ofIndex twoFieldIndex [("a", 1), ("b", -1)] 1).keys.filter fun k =>
          isValidKey (IndexKey.cmp noDecimalLib) (make twoFieldBounds [("a", 1), ("b", -1)] 1) k =
            .ok true)) :=
  ⟨by decide, by decide,
    indexScan_returns_keys_in_bounds (IndexKey.cmp_total noDecimalLib) (by decide) (.inl rfl)
      (by decide) (by decide) (by decide) _ (by decide) (by decide) (by decide)⟩

/-- The scan hands up `[1, 3]` and `[6, 4]`, and none of the keys out of the bounds. -/
example : IndexScan.runToEOF (IndexKey.cmp noDecimalLib)
    (IndexCursor.ofIndex twoFieldIndex [("a", 1), ("b", -1)] 1) 12
      (IndexScan.init twoFieldBounds [("a", 1), ("b", -1)] 1) =
    .ok (some [[intKey 1, intKey 3], [intKey 6, intKey 4]]) := by rfl

end Mongo.Query
