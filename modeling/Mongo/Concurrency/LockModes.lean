import Mathlib.Data.Nat.Bitwise

/-! The lock modes of `db/concurrency/lock_manager_defs.h` and the masks of modes the lock manager
keeps (`db/concurrency/lock_manager.cpp`). A mask is a `uint32_t` with bit `mode` set for each
mode in it; the conflicts table maps a requested mode to the mask of the modes it conflicts
with. The table is symmetric, and the conversions the lock manager allows only add conflicts:
the proofs about waiting and converting requests rest on these two facts. -/

namespace Mongo

namespace Concurrency

/-- `LockMode`. -/
inductive LockMode
  | MODE_NONE
  | MODE_IS
  | MODE_IX
  | MODE_S
  | MODE_X
  deriving DecidableEq, Repr

namespace LockMode

/-- The value of the mode in `enum LockMode`. -/
def toNat : LockMode → Nat
  | MODE_NONE => 0
  | MODE_IS => 1
  | MODE_IX => 2
  | MODE_S => 3
  | MODE_X => 4

theorem toNat_lt (mode : LockMode) : mode.toNat < 5 := by
  cases mode <;> decide

theorem toNat_injective {a b : LockMode} (h : a.toNat = b.toNat) : a = b := by
  cases a <;> cases b <;> first | rfl | simp [toNat] at h

end LockMode

open LockMode

/-- `modeMask(mode)`. -/
def modeMask (mode : LockMode) : UInt32 := 1 <<< mode.toNat.toUInt32

/-- `LockConflictsTable`: the modes a new request in the mode conflicts with. -/
def LockConflictsTable : LockMode → UInt32
  | MODE_NONE => 0
  | MODE_IS => modeMask MODE_X
  | MODE_IX => modeMask MODE_S ||| modeMask MODE_X
  | MODE_S => modeMask MODE_IX ||| modeMask MODE_X
  | MODE_X => modeMask MODE_S ||| modeMask MODE_X ||| modeMask MODE_IS ||| modeMask MODE_IX

/-- `intentModes`. -/
def intentModes : UInt32 := modeMask MODE_IS ||| modeMask MODE_IX

/-- `conflicts(newMode, existingModesMask)`. -/
def conflicts (newMode : LockMode) (existingModesMask : UInt32) : Bool :=
  LockConflictsTable newMode &&& existingModesMask != 0

/-- The modes `1 .. LockModesCount - 1` the loops of `convert` and `_onLockModeChanged` walk:
`MODE_NONE` can never be acquired. -/
def acquirableModes : List LockMode := [ MODE_IS, MODE_IX, MODE_S, MODE_X]

/-- `grantedModesWithoutCurrentRequest`: the modes whose granted count is more than the request
itself accounts for. -/
def grantedModesWithout (grantedCounts own : LockMode → Nat) : UInt32 :=
  acquirableModes.foldl (fun mask i => if own i < grantedCounts i then mask ||| modeMask i else mask) 0

/-! ### Masks as sets of modes -/

/-- Whether the bit of `mode` is set in a mask. -/
def hasMode (mask : UInt32) (mode : LockMode) : Bool := mask.toBitVec.getLsbD mode.toNat

/-- The table as a relation: a new request in mode `a` conflicts with an existing one in `b`. -/
def conflictsWith (a b : LockMode) : Bool := hasMode (LockConflictsTable a) b

theorem toBitVec_modeMask (mode : LockMode) :
    (modeMask mode).toBitVec = BitVec.ofNat 32 (2 ^ mode.toNat) := by
  cases mode <;> decide

@[simp] theorem getLsbD_modeMask (mode : LockMode) (i : Nat) :
    (modeMask mode).toBitVec.getLsbD i = decide (mode.toNat = i) := by
  have h32 : mode.toNat < 32 := by have := mode.toNat_lt; omega
  rw [toBitVec_modeMask, BitVec.getLsbD_ofNat, Nat.testBit_two_pow]
  by_cases hi : mode.toNat = i
  · simp [hi.symm, h32]
  · simp [hi]

@[simp] theorem hasMode_or (x y : UInt32) (e : LockMode) :
    hasMode (x ||| y) e = (hasMode x e || hasMode y e) := by
  simp [hasMode, UInt32.toBitVec_or]

@[simp] theorem hasMode_and (x y : UInt32) (e : LockMode) :
    hasMode (x &&& y) e = (hasMode x e && hasMode y e) := by
  simp [hasMode, UInt32.toBitVec_and]

@[simp] theorem hasMode_not (x : UInt32) (e : LockMode) : hasMode (~~~x) e = !hasMode x e := by
  have h32 : e.toNat < 32 := by have := e.toNat_lt; omega
  simp [hasMode, h32]

@[simp] theorem hasMode_modeMask (mode e : LockMode) : hasMode (modeMask mode) e = decide (mode = e) := by
  simp only [hasMode, getLsbD_modeMask]
  exact decide_eq_decide.mpr ⟨LockMode.toNat_injective, congrArg LockMode.toNat⟩

@[simp] theorem hasMode_zero (e : LockMode) : hasMode 0 e = false := by
  simp [hasMode]

/-- A mask with no mode's bit and no bit past the modes is zero. -/
theorem eq_zero_of_hasMode {x : UInt32} (hhigh : ∀ i, 5 ≤ i → x.toBitVec.getLsbD i = false)
    (hmodes : ∀ e, hasMode x e = false) : x = 0 := by
  rw [← UInt32.toBitVec_inj, UInt32.toBitVec_zero]
  apply BitVec.eq_of_getLsbD_eq
  intro i _
  rw [BitVec.getLsbD_zero]
  by_cases hi : 5 ≤ i
  · exact hhigh i hi
  · -- the five bits below are those of the modes
    have hlow : i = 0 ∨ i = 1 ∨ i = 2 ∨ i = 3 ∨ i = 4 := by omega
    rcases hlow with rfl | rfl | rfl | rfl | rfl
    · exact hmodes MODE_NONE
    · exact hmodes MODE_IS
    · exact hmodes MODE_IX
    · exact hmodes MODE_S
    · exact hmodes MODE_X

theorem getLsbD_modeMask_high (mode : LockMode) {i : Nat} (hi : 5 ≤ i) :
    (modeMask mode).toBitVec.getLsbD i = false := by
  have := mode.toNat_lt
  simp only [getLsbD_modeMask, decide_eq_false_iff_not]
  omega

/-- Testing one bit: `mask & modeMask(mode)` is zero exactly when the mode is not in the mask. -/
theorem and_modeMask_eq_zero_iff (x : UInt32) (mode : LockMode) :
    x &&& modeMask mode = 0 ↔ hasMode x mode = false := by
  constructor
  · intro h
    have hbit := congrArg (fun y => hasMode y mode) h
    simpa using hbit
  · intro h
    apply eq_zero_of_hasMode
    · intro i hi
      simp [UInt32.toBitVec_and, getLsbD_modeMask_high mode hi]
    · intro e
      by_cases he : mode = e
      · subst he
        simp [h]
      · simp [he]

/-- `mask & modeMask(mode)` is the mode's bit exactly when the mode is in the mask. -/
theorem and_modeMask_eq_modeMask_iff (x : UInt32) (mode : LockMode) :
    x &&& modeMask mode = modeMask mode ↔ hasMode x mode = true := by
  constructor
  · intro h
    have hbit := congrArg (fun y => hasMode y mode) h
    simpa using hbit
  · intro h
    rw [← UInt32.toBitVec_inj]
    apply BitVec.eq_of_getLsbD_eq
    intro i _
    rw [UInt32.toBitVec_and, BitVec.getLsbD_and, getLsbD_modeMask]
    by_cases hi : mode.toNat = i
    · subst hi
      simpa [hasMode] using h
    · simp [hi]

theorem getLsbD_LockConflictsTable_high (a : LockMode) {i : Nat} (hi : 5 ≤ i) :
    (LockConflictsTable a).toBitVec.getLsbD i = false := by
  cases a <;> simp [LockConflictsTable, UInt32.toBitVec_or, getLsbD_modeMask_high _ hi]

/-- A new request conflicts with a mask exactly when it conflicts with a mode of the mask. -/
theorem conflicts_iff (a : LockMode) (x : UInt32) :
    conflicts a x = true ↔ ∃ e, conflictsWith a e = true ∧ hasMode x e = true := by
  unfold conflicts conflictsWith
  rw [bne_iff_ne, ne_eq]
  constructor
  · intro hne
    by_contra hnone
    simp only [not_exists, not_and] at hnone
    apply hne
    apply eq_zero_of_hasMode
    · intro i hi
      simp [UInt32.toBitVec_and, getLsbD_LockConflictsTable_high a hi]
    · intro e
      cases h : hasMode (LockConflictsTable a) e
      · simp [h]
      · simpa [h] using hnone e h
  · rintro ⟨e, hconf, hx⟩ h0
    have hbit := congrArg (fun y => hasMode y e) h0
    simp [hconf, hx] at hbit

/-- The conflicts table is symmetric. -/
theorem conflictsWith_comm (a b : LockMode) : conflictsWith a b = conflictsWith b a := by
  cases a <;> cases b <;> decide

@[simp] theorem conflictsWith_MODE_NONE (a : LockMode) : conflictsWith a MODE_NONE = false := by
  cases a <;> decide

@[simp] theorem MODE_NONE_conflictsWith (a : LockMode) : conflictsWith MODE_NONE a = false := by
  cases a <;> decide

theorem conflictsWith_MODE_X {a : LockMode} (ha : a ≠ MODE_NONE) : conflictsWith a MODE_X = true := by
  cases a <;> first | decide | exact absurd rfl ha

/-- A conversion the lock manager allows, `(T[mode] | T[newMode]) == T[newMode]`, only adds
conflicts: whatever conflicts with the old mode conflicts with the new one. -/
theorem conflictsWith_of_upgrade {a b : LockMode}
    (hup : (LockConflictsTable a ||| LockConflictsTable b) = LockConflictsTable b) {e : LockMode}
    (he : conflictsWith e a = true) : conflictsWith e b = true := by
  rw [conflictsWith_comm] at he ⊢
  have hbit := congrArg (fun y => hasMode y e) hup
  simp only [hasMode_or] at hbit
  unfold conflictsWith at he ⊢
  rw [← hbit, he, Bool.true_or]

@[simp] theorem hasMode_grantedModesWithout (grantedCounts own : LockMode → Nat) (e : LockMode) :
    hasMode (grantedModesWithout grantedCounts own) e =
      (e != MODE_NONE && decide (own e < grantedCounts e)) := by
  unfold grantedModesWithout acquirableModes
  cases e <;> simp only [List.foldl_cons, List.foldl_nil] <;> split_ifs <;> simp_all

/-- A request conflicts with the modes held apart from some request's own exactly when it
conflicts with a mode whose count is more than that request accounts for. -/
theorem conflicts_grantedModesWithout_iff (a : LockMode) (grantedCounts own : LockMode → Nat) :
    conflicts a (grantedModesWithout grantedCounts own) = true ↔
      ∃ e, conflictsWith a e = true ∧ own e < grantedCounts e := by
  rw [conflicts_iff]
  constructor
  · rintro ⟨e, hconf, hmask⟩
    simp only [hasMode_grantedModesWithout, Bool.and_eq_true, decide_eq_true_eq] at hmask
    exact ⟨e, hconf, hmask.2⟩
  · rintro ⟨e, hconf, hlt⟩
    have hnone : e ≠ MODE_NONE := by
      rintro rfl
      simp at hconf
    exact ⟨e, hconf, by simp [hnone, hlt]⟩

end Concurrency

end Mongo
