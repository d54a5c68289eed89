import MgbaRs.Arm.Core
import Mathlib.Data.List.AList

/-!
# The trapper

`Trapper::new`, `OwnedCore::set_traps` and the breakpoint hook
`c_trapper_bkpt16`, over the parts of a core they touch: the ARM core, the
memory halfwords and the heap boxes that hold trappers.

A call that panics still leaves its effects behind, so `Trapper.new` and
`setTraps` return the core in every case. Handlers are opaque names `H`; what
calling one does belongs to whoever runs the core. The hook itself returns
the calls it makes, in order (`HookCall`).
-/

namespace MgbaRs

variable {F H L S : Type}

structure Trap (H : Type) where
  handler : H
  original : Half
deriving DecidableEq, Repr

/-- `HashMap<u32, Trap>`. -/
abbrev Traps (H : Type) := AList fun _ : Word => Trap H

/-- The box the component slot points to. -/
structure TrapperCStruct (F H : Type) where
  realBkpt16 : Option (Bkpt16 F)
  traps : Traps H

/-- A core: its CPU, its memory, whatever else a program can change (`rest`)
and the trapper boxes on the heap (`none`: never allocated, or freed). -/
structure Core (F H L S : Type) where
  arm : ARMCore F
  mem : L → Half
  rest : S
  boxes : Nat → Option (TrapperCStruct F H)
  next : Nat

/-- A core with the trapper it owns. -/
structure OwnedCore (F H L S : Type) where
  core : Core F H L S
  trapper : Option Nat

/-- What the component slot points to, if it points to a live trapper. -/
def Core.registered (core : Core F H L S) : Option (TrapperCStruct F H) :=
  match core.arm.misc1 with
  | .trapper box => core.boxes box
  | _ => none

/-- The trapper's hook is in place and its trapper registered. -/
structure Core.Hooked (core : Core F H L S) (trapper : TrapperCStruct F H) : Prop where
  hook : core.arm.bkpt16 = some .cTrapperBkpt16
  registered : core.registered = some trapper

/-- A core as created: registers and pipeline zero, mGBA's own handler `f` in
the breakpoint hook, nothing in the component slot. -/
def Core.boot (f : F) (mem : L → Half) (rest : S) : Core F H L S where
  arm :=
    { gprs := fun _ => 0
      cpsr := 0
      prefetch0 := 0
      prefetch1 := 0
      executionMode := .ARM
      activeRegion := 0
      activeMask := 0
      bkpt16 := some (.native f)
      misc1 := .null }
  mem
  rest
  boxes _ := none
  next := 0

def TRAPPER_IMM : Word := 0xef

/-- `(0xbe00 | TRAPPER_IMM) as i16`. -/
def trapperBkpt : Half := (0xbe00 ||| TRAPPER_IMM).setWidth 16

example : trapperBkpt = 0xBEEF := rfl

/-- `{:08x}`. -/
def hex8 (a : Word) : String :=
  String.ofList ((List.range 8).map fun i => Nat.digitChar (a.toNat >>> (4 * (7 - i)) % 16))

example : hex8 0x0800abcd = "0800abcd" := rfl

/-! ## Installation -/

/-- `GBAPatch16`: store a halfword, return the one it replaces. -/
def gbaPatch16 [DecidableEq L] (bus : Bus L) (mem : L → Half) (addr : Word) (v : Half) :
    (L → Half) × Half :=
  match bus.resolve addr with
  | some l => (Function.update mem l v, mem l)
  | none => (mem, bus.badPatch addr)

/-- The loop of `Trapper::new`: what it returns, and memory as it leaves it. -/
def patchLoop [DecidableEq L] (bus : Bus L) :
    List (Word × H) → Traps H → (L → Half) → Except Fault (Traps H) × (L → Half)
  | [], traps, mem => (.ok traps, mem)
  | (addr, handler) :: rest, traps, mem =>
      if addr ∈ traps then
        -- `Entry::Occupied`
        (.error (.panic ("attempting to install a second trap at 0x" ++ hex8 addr)), mem)
      else
        -- the old halfword, as the patches so far have left it
        let (mem, original) := gbaPatch16 bus mem addr trapperBkpt
        patchLoop bus rest (traps.insert addr { handler, original }) mem

/-- The hook and the slot as `Trapper::new` leaves them, before the loop. -/
def Core.hook (core : Core F H L S) : Core F H L S :=
  { core with
    arm := { core.arm with
      misc1 := .trapper core.next
      bkpt16 := some .cTrapperBkpt16 }
    next := core.next + 1 }

/-- `Trapper::new`. A panic in the loop unwinds through the local box and
frees it; the slot keeps pointing there. -/
def Trapper.new [DecidableEq L] (bus : Bus L) (core : Core F H L S)
    (handlers : List (Word × H)) : Except Fault Nat × Core F H L S :=
  match patchLoop bus handlers ∅ core.mem with
  | (.ok traps, mem) =>
      (.ok core.next,
        { core.hook with
          mem
          boxes := Function.update core.boxes core.next
            (some { realBkpt16 := core.arm.bkpt16, traps }) })
  | (.error f, mem) =>
      -- hook, slot and patches stay
      (.error f,
        { core.hook with
          mem
          boxes := Function.update core.boxes core.next none })

/-- `OwnedCore::set_traps`. -/
def OwnedCore.setTraps [DecidableEq L] (bus : Bus L) (oc : OwnedCore F H L S)
    (traps : List (Word × H)) : Except Fault Unit × OwnedCore F H L S :=
  match oc.trapper with
  | some _ => (.error (.panic "traps are already installed on this core"), oc)
  | none =>
      match Trapper.new bus oc.core traps with
      | (.ok box, core) => (.ok (), { core, trapper := some box })
      -- the assignment to `self.trapper` is not reached
      | (.error f, core) => (.error f, { oc with core })

/-! ## The hook -/

/-- A call `c_trapper_bkpt16` makes. -/
inductive HookCall (F H : Type) where
  /-- The breakpoint handler that was there before. -/
  | real (f : Bkpt16 F) (imm : Word)
  /-- `ARMRunFake`. -/
  | runFake (opcode : Word)
  /-- The handler of the trap with key `caller`. -/
  | handler (caller : Word) (h : H)
deriving DecidableEq, Repr

/-- `c_trapper_bkpt16`: the calls it makes, or how it ends instead. -/
def cTrapperBkpt16 (b : Build) (core : Core F H L S) (imm : Word) :
    Except Fault (List (HookCall F H)) :=
  match core.registered with
  | none => .error .badPointer
  | some trapper =>
      if imm ≠ TRAPPER_IMM then
        -- `trapper.real_bkpt16.unwrap()(arm_core, imm)`
        match trapper.realBkpt16 with
        | none => .error .unwrapNone
        | some f => .ok [.real f imm]
      else
        match b.sub (core.arm.gpr ARM_PC) (WORD_SIZE_THUMB * 2) with
        | .error f => .error f
        | .ok caller =>
            -- `traps.get_mut(&caller).unwrap()`
            match trapper.traps.lookup caller with
            | none => .error .unwrapNone
            | some trap => .ok [.runFake (zext trap.original), .handler caller trap.handler]

/-- Any other immediate goes to the old handler, if there was one. -/
theorem cTrapperBkpt16_foreign (b : Build) {core : Core F H L S} {trapper : TrapperCStruct F H}
    (hreg : core.registered = some trapper) {imm : Word} (himm : imm ≠ TRAPPER_IMM) :
    cTrapperBkpt16 b core imm = (match trapper.realBkpt16 with
      | none => .error .unwrapNone
      | some f => .ok [.real f imm]) := by
  simp only [cTrapperBkpt16, hreg, if_pos himm]

/-- The hook's own immediate: the three ways it can go. -/
theorem cTrapperBkpt16_own (b : Build) {core : Core F H L S} {trapper : TrapperCStruct F H}
    (hreg : core.registered = some trapper) :
    cTrapperBkpt16 b core TRAPPER_IMM =
      (match b.sub (core.arm.gpr ARM_PC) (WORD_SIZE_THUMB * 2) with
        | .error f => .error f
        | .ok caller =>
            match trapper.traps.lookup caller with
            | none => .error .unwrapNone
            | some trap => .ok [.runFake (zext trap.original), .handler caller trap.handler]) := by
  simp only [cTrapperBkpt16, hreg, ne_eq, not_true_eq_false, if_false]

end MgbaRs
