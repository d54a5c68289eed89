import Mathlib.Data.BitVec

/-!
# Machine words and the ways a Rust call can end badly

`Word`, `Half` and `Byte` are the fixed-width integers of the crate (`i32`
and `u32` share `Word`: an `as` cast between them keeps the bits). `Fault`
lists the abnormal ends a modelled call can have. Plain `+` and `-` on
integers panic on overflow when the crate is built with overflow checks (the
default of a debug build) and wrap otherwise, so they take the `Build`.
-/

namespace MgbaRs

abbrev Word := BitVec 32
abbrev Half := BitVec 16
abbrev Byte := UInt8

/-- How a call ends when it does not return. -/
inductive Fault where
  /-- `panic!` or a failed `assert!` with a message. -/
  | panic (message : String)
  /-- `Option::unwrap` on `None`. -/
  | unwrapNone
  /-- `Result::unwrap` on an error. -/
  | unwrapErr
  /-- A failed `assert!` without a message. -/
  | assertFailed
  /-- Checked integer arithmetic out of range. -/
  | overflow
  /-- A `Vec` asked to hold more than `isize::MAX` bytes. -/
  | capacityOverflow
  /-- A dereference of a null or dangling pointer. -/
  | badPointer
  /-- A call that calls itself with the same arguments and never returns. -/
  | stackOverflow
deriving DecidableEq, Repr

/-- The build profile, as far as the code's meaning depends on it. -/
structure Build where
  overflowChecks : Bool
deriving DecidableEq, Repr

def Build.debug : Build := ⟨true⟩
def Build.release : Build := ⟨false⟩

/-- `x - y` on `u32`. -/
def Build.sub (b : Build) (x y : Word) : Except Fault Word :=
  if b.overflowChecks = true ∧ x.toNat < y.toNat then .error .overflow else .ok (x - y)

/-- `x + y` on `u32`. -/
def Build.add (b : Build) (x y : Word) : Except Fault Word :=
  if b.overflowChecks = true ∧ 2 ^ 32 ≤ x.toNat + y.toNat then .error .overflow
  else .ok (x + y)

/-- `x * y` on `u32`. -/
def Build.mul (b : Build) (x y : Word) : Except Fault Word :=
  if b.overflowChecks = true ∧ 2 ^ 32 ≤ x.toNat * y.toNat then .error .overflow
  else .ok (x * y)

/-- A subtraction completes exactly when it is unchecked or in range. -/
theorem Build.sub_eq_ok_iff (b : Build) (x y z : Word) :
    b.sub x y = .ok z ↔ (b.overflowChecks = true → y.toNat ≤ x.toNat) ∧ z = x - y := by
  unfold Build.sub
  split
  · rename_i h
    simp only [reduceCtorEq, false_iff]
    rintro ⟨hle, -⟩
    have := hle h.1
    omega
  · rename_i h
    simp only [Except.ok.injEq]
    constructor
    · rintro rfl
      exact ⟨fun hb => by simpa [hb] using h, rfl⟩
    · rintro ⟨-, rfl⟩
      rfl

theorem Build.add_eq_ok_iff (b : Build) (x y z : Word) :
    b.add x y = .ok z ↔
      (b.overflowChecks = true → x.toNat + y.toNat < 2 ^ 32) ∧ z = x + y := by
  unfold Build.add
  split
  · rename_i h
    simp only [reduceCtorEq, false_iff]
    rintro ⟨hlt, -⟩
    have := hlt h.1
    omega
  · rename_i h
    simp only [Except.ok.injEq]
    constructor
    · rintro rfl
      exact ⟨fun hb => by simpa [hb] using h, rfl⟩
    · rintro ⟨-, rfl⟩
      rfl

/-- Taking back what was added wrapping around: it trips exactly when the
addition did wrap. -/
theorem Build.sub_add_cancel (b : Build) (x k : Word) :
    b.sub (x + k) k =
      if b.overflowChecks = true ∧ 2 ^ 32 ≤ x.toNat + k.toNat then .error .overflow
      else .ok x := by
  have hx := x.isLt
  have hk := k.isLt
  have hwrap : (x + k).toNat < k.toNat ↔ 2 ^ 32 ≤ x.toNat + k.toNat := by
    rw [BitVec.toNat_add]
    omega
  simp only [Build.sub, hwrap, BitVec.add_sub_cancel]

/-! ## 64-bit sizes and offsets -/

/-- `isize::MAX`, also the largest `off_t`. -/
def isizeMax : Nat := 2 ^ 63 - 1

theorem isizeMax_eq : isizeMax = 2 ^ 63 - 1 := rfl

/-- `v as isize` and `v as off_t` for an unsigned 64-bit `v`. -/
def asSigned (v : Nat) : Int := (BitVec.ofNat 64 v).toInt

theorem asSigned_of_le {v : Nat} (h : v ≤ isizeMax) : asSigned v = v := by
  unfold isizeMax at h
  unfold asSigned
  rw [BitVec.toInt_eq_toNat_cond, BitVec.toNat_ofNat, Nat.mod_eq_of_lt (by omega),
    if_pos (by omega)]

/-- The upper half of the unsigned range reads as a negative number. -/
theorem asSigned_of_gt {v : Nat} (h : isizeMax < v) (h' : v < 2 ^ 64) :
    asSigned v = (v : Int) - 2 ^ 64 := by
  unfold isizeMax at h
  unfold asSigned
  rw [BitVec.toInt_eq_toNat_cond, BitVec.toNat_ofNat, Nat.mod_eq_of_lt h',
    if_neg (by omega)]
  rfl

end MgbaRs
