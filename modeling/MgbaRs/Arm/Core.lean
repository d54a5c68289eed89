import MgbaRs.Rust.Num
import Mathlib.Logic.Function.Basic

/-!
# The ARM core as the crate sees it

The fields of mGBA's `ARMCore` the crate reads or writes, and `ArmCore`'s
accessors over them. mGBA itself is not in the repository; the `Bus` names
the part of it these functions go through: how an address resolves to a
halfword of memory, what `setActiveRegion` selects and what a load through
the selected region yields.
-/

namespace MgbaRs

inductive ExecutionMode where
  | ARM
  | Thumb
deriving DecidableEq, Repr

/-- What `irqh.bkpt16` can point to: a handler of mGBA's or a debugger's own,
or the crate's hook. -/
inductive Bkpt16 (F : Type) where
  | native (f : F)
  | cTrapperBkpt16
deriving DecidableEq, Repr

/-- The `MISC_1` slot of the component table. A trapper is named by the
address of its box. -/
inductive Component where
  | null
  | foreign (n : Nat)
  | trapper (box : Nat)
deriving DecidableEq, Repr

/-- Registers, pipeline, active region, breakpoint hook and `MISC_1`. -/
structure ARMCore (F : Type) where
  gprs : Fin 16 → Word
  cpsr : Word
  prefetch0 : Word
  prefetch1 : Word
  executionMode : ExecutionMode
  activeRegion : Nat
  activeMask : Word
  bkpt16 : Option (Bkpt16 F)
  misc1 : Component

/-- The memory system, over the halfwords `L` of memory. Addresses that
differ in bit 0 resolve alike, and several addresses (the mirrors of a
region) may resolve to one halfword. -/
structure Bus (L : Type) where
  /-- The halfword an address stands for, if any. -/
  resolve : Word → Option L
  resolve_bit0 : ∀ a, resolve (a &&& -2) = resolve a
  /-- What a fetch from an unresolved address reads. -/
  unmapped : Word → Half
  /-- What `GBAPatch16` reports as the old value where it cannot patch. -/
  badPatch : Word → Half
  /-- The region pointer and mask `setActiveRegion` selects. -/
  setActiveRegion : Word → Nat × Word
  /-- A halfword load at an offset from a region pointer. -/
  load16 : Nat → (L → Half) → Word → Half

/-- The halfword a Thumb fetch at `a` reads. -/
def Bus.fetch {L : Type} (bus : Bus L) (mem : L → Half) (a : Word) : Half :=
  match bus.resolve a with
  | some l => mem l
  | none => bus.unmapped a

theorem Bus.fetch_resolved {L : Type} {bus : Bus L} {a : Word} {l : L}
    (h : bus.resolve a = some l) (mem : L → Half) : bus.fetch mem a = mem l := by
  simp [Bus.fetch, h]

theorem Bus.fetch_unresolved {L : Type} {bus : Bus L} {a : Word}
    (h : bus.resolve a = none) (mem : L → Half) : bus.fetch mem a = bus.unmapped a := by
  simp [Bus.fetch, h]

/-- `setActiveRegion pc` selects a region and mask containing `pc`: a load
through them reads the halfword at `pc`. -/
def Bus.RegionContains {L : Type} (bus : Bus L) (pc : Word) : Prop :=
  ∀ mem, bus.load16 (bus.setActiveRegion pc).1 mem (pc &&& (bus.setActiveRegion pc).2) =
    bus.fetch mem pc

/-! ## A concrete bus -/

theorem ushiftRight_one_and_neg_two (a : Word) : (a &&& -2) >>> 1 = a >>> 1 := by
  apply BitVec.eq_of_toNat_eq
  simp only [BitVec.toNat_ushiftRight, BitVec.toNat_and]
  have hmask : (-2 : Word).toNat >>> 1 = 2 ^ 31 - 1 := rfl
  rw [Nat.shiftRight_and_distrib, hmask, Nat.and_two_pow_sub_one_eq_mod,
    Nat.shiftRight_eq_div_pow]
  have := a.isLt
  omega

/-- An offset into the cartridge keeps the low 24 bits of the halfword index. -/
theorem setWidth_masked_offset (a : Word) :
    ((a &&& 0x01ffffff) >>> 1).setWidth 24 = (a >>> 1).setWidth 24 := by
  apply BitVec.eq_of_toNat_eq
  simp only [BitVec.toNat_setWidth, BitVec.toNat_ushiftRight, BitVec.toNat_and]
  have hmask : (0x01ffffff : Word).toNat >>> 1 = 2 ^ 24 - 1 := rfl
  rw [Nat.shiftRight_and_distrib, hmask, Nat.and_two_pow_sub_one_eq_mod]
  omega

/-- The cartridge: 16 Mi halfwords, seen at `0x08000000` and again at the two
further wait-state mirrors. Everything else is open bus. -/
def Bus.cart : Bus (BitVec 24) where
  resolve a :=
    if 0x04000000 ≤ a >>> 1 ∧ a >>> 1 < 0x07000000 then some ((a >>> 1).setWidth 24) else none
  resolve_bit0 a := by rw [ushiftRight_one_and_neg_two]
  unmapped _ := 0xb710
  badPatch _ := 0xffff
  setActiveRegion pc :=
    if 0x04000000 ≤ pc >>> 1 ∧ pc >>> 1 < 0x07000000 then (1, 0x01ffffff) else (0, 0)
  load16 region mem offset :=
    if region = 1 then mem ((offset >>> 1).setWidth 24) else 0xb710

theorem Bus.cart_regionContains (pc : Word) : Bus.cart.RegionContains pc := by
  intro mem
  by_cases hin : 0x04000000 ≤ pc >>> 1 ∧ pc >>> 1 < 0x07000000
  · simp only [Bus.fetch, Bus.cart, if_pos hin, if_true]
    rw [setWidth_masked_offset]
  · simp only [Bus.fetch, Bus.cart, if_neg hin]
    rfl

/-- `v as u32` for a halfword. -/
def zext (h : Half) : Word := h.setWidth 32

theorem zext_injective : Function.Injective zext := by
  intro x y h
  have hnat := congrArg BitVec.toNat h
  have hx := x.isLt
  have hy := y.isLt
  simp only [zext, BitVec.toNat_setWidth] at hnat
  rw [Nat.mod_eq_of_lt (by omega), Nat.mod_eq_of_lt (by omega)] at hnat
  exact BitVec.eq_of_toNat_eq hnat

def WORD_SIZE_THUMB : Word := 2
/-- Register 15. -/
def ARM_PC : Fin 16 := 15

namespace ARMCore

variable {F L : Type}

def gpr (cpu : ARMCore F) (r : Fin 16) : Word := cpu.gprs r

def setGpr (cpu : ARMCore F) (r : Fin 16) (v : Word) : ARMCore F :=
  { cpu with gprs := Function.update cpu.gprs r v }

@[simp] theorem setGpr_self (cpu : ARMCore F) (r : Fin 16) (v : Word) :
    (cpu.setGpr r v).gprs r = v := Function.update_self ..

@[simp] theorem setGpr_of_ne (cpu : ARMCore F) {r r' : Fin 16} (h : r' ≠ r) (v : Word) :
    (cpu.setGpr r v).gprs r' = cpu.gprs r' := Function.update_of_ne h ..

def thumbPc (b : Build) (cpu : ARMCore F) : Except Fault Word :=
  b.sub (cpu.gpr ARM_PC) WORD_SIZE_THUMB

/-- Select the active region of `pc`. -/
def enterRegion (bus : Bus L) (pc : Word) (cpu : ARMCore F) : ARMCore F :=
  { cpu with
    activeRegion := (bus.setActiveRegion pc).1
    activeMask := (bus.setActiveRegion pc).2 }

/-- `LOAD_16(…, pc & activeMask, activeRegion)`. -/
def loadActive (bus : Bus L) (mem : L → Half) (pc : Word) (cpu : ARMCore F) : Word :=
  zext (bus.load16 cpu.activeRegion mem (pc &&& cpu.activeMask))

/-- `thumb_write_pc`. The mask `-2` clears bit 0; `pc += 2` is checked
arithmetic on `u32`. -/
def thumbWritePc (b : Build) (bus : Bus L) (mem : L → Half) (cpu : ARMCore F) :
    Except Fault (ARMCore F) := do
  let pc := cpu.gpr ARM_PC &&& -WORD_SIZE_THUMB
  let cpu := cpu.enterRegion bus pc
  let cpu := { cpu with prefetch0 := cpu.loadActive bus mem pc }
  let pc ← b.add pc WORD_SIZE_THUMB
  let cpu := { cpu with prefetch1 := cpu.loadActive bus mem pc }
  return cpu.setGpr ARM_PC pc

def setThumbPc (b : Build) (bus : Bus L) (mem : L → Half) (v : Word) (cpu : ARMCore F) :
    Except Fault (ARMCore F) :=
  (cpu.setGpr ARM_PC v).thumbWritePc b bus mem

/-- The C code quoted line by line in `thumb_write_pc`, on `uint32_t`, where
addition wraps. -/
def ThumbWritePC (bus : Bus L) (mem : L → Half) (cpu : ARMCore F) : ARMCore F :=
  let pc := cpu.gpr ARM_PC &&& -WORD_SIZE_THUMB
  let cpu := cpu.enterRegion bus pc
  let cpu := { cpu with prefetch0 := cpu.loadActive bus mem pc }
  let pc := pc + WORD_SIZE_THUMB
  let cpu := { cpu with prefetch1 := cpu.loadActive bus mem pc }
  cpu.setGpr ARM_PC pc

/-- The port computes what the quoted C code computes, when its addition does
not trip. -/
theorem thumbWritePc_eq_ok_iff (b : Build) (bus : Bus L) (mem : L → Half)
    (cpu cpu' : ARMCore F) :
    cpu.thumbWritePc b bus mem = .ok cpu' ↔
      (b.overflowChecks = true →
        (cpu.gpr ARM_PC &&& -WORD_SIZE_THUMB).toNat + 2 < 2 ^ 32) ∧
      cpu' = cpu.ThumbWritePC bus mem := by
  have hadd := b.add_eq_ok_iff (cpu.gpr ARM_PC &&& -WORD_SIZE_THUMB) WORD_SIZE_THUMB
    ((cpu.gpr ARM_PC &&& -WORD_SIZE_THUMB) + WORD_SIZE_THUMB)
  simp only [and_true] at hadd
  cases hsum : b.add (cpu.gpr ARM_PC &&& -WORD_SIZE_THUMB) WORD_SIZE_THUMB with
  | error f =>
      have hno : ¬ (b.overflowChecks = true →
          (cpu.gpr ARM_PC &&& -WORD_SIZE_THUMB).toNat + 2 < 2 ^ 32) := by
        intro hok
        have := hadd.mpr hok
        rw [hsum] at this
        cases this
      simp only [thumbWritePc, hsum, hno, false_and, iff_false]
      intro h
      cases h
  | ok pc =>
      have hpc := ((b.add_eq_ok_iff _ _ _).mp hsum)
      obtain ⟨hok, rfl⟩ := hpc
      simp only [thumbWritePc, hsum]
      show Except.ok (cpu.ThumbWritePC bus mem) = _ ↔ _
      constructor
      · intro h
        cases h
        exact ⟨hok, rfl⟩
      · intro h
        rw [h.2]

end ARMCore

end MgbaRs
