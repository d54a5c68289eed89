import MgbaRs.Lib.Lts
import MgbaRs.Trapper.Hook

/-!
# The machine the hook runs in

mGBA is not in the repository. This is the part of it the trapper relies on,
as a step function over a core, with everything else a parameter
(`Platform`):

* between Thumb steps `gpr15` is the address of the next instruction plus 2,
  and `prefetch0`, `prefetch1` are the halfwords fetched there and behind it;
* a Thumb step shifts the pipeline, adds 2 to `gpr15` and executes what was
  in `prefetch0`; `BKPT #imm` calls the hook in `irqh.bkpt16`;
* `ARMRunFake(op)` takes 2 from `gpr15` and puts `op` back in front of the
  pipeline;
* an interrupt may be taken before any step; it discards the pipeline, and
  returning to Thumb code fetches again.

What an ARM instruction, a Thumb instruction, a native breakpoint handler or
the interrupt entry does to registers and memory is any function of what it
can see. The pipeline of ARM code is part of `rest`.
-/

namespace MgbaRs

variable {F H L S : Type}

/-- What an instruction sees. -/
structure View (L S : Type) where
  gprs : Fin 16 → Word
  cpsr : Word
  executionMode : ExecutionMode
  mem : L → Half
  rest : S

/-- Where execution goes on: behind the instruction, at a Thumb address, or
in ARM code (which keeps its own `gpr15`). -/
inductive Next where
  | seq
  | thumb (target : Word)
  | arm

/-- What an instruction does. -/
structure Effect (L S : Type) where
  gprs : Fin 16 → Word
  cpsr : Word
  mem : L → Half
  rest : S
  next : Next

/-- What the step function is a function of: the build, the memory system,
the instructions, mGBA's own breakpoint handlers and the trap handlers. -/
structure Platform (F H L S : Type) where
  build : Build
  bus : Bus L
  thumb : Word → View L S → Effect L S
  arm : View L S → Effect L S
  irq : View L S → Effect L S
  native : F → Word → View L S → Effect L S
  call : H → Core F H L S → Core F H L S

/-- A cartridge full of one harmless instruction. -/
def nops : BitVec 24 → Half := fun _ => 0x46c0

/-- The cartridge bus with a program that only jumps: every instruction goes
to the Thumb address `target`, handlers do nothing. -/
def Platform.jumper (build : Build) (target : Word) :
    Platform Unit Unit (BitVec 24) Unit where
  build
  bus := Bus.cart
  thumb _ v := ⟨v.gprs, v.cpsr, v.mem, v.rest, .thumb target⟩
  arm v := ⟨v.gprs, v.cpsr, v.mem, v.rest, .thumb target⟩
  irq v := ⟨v.gprs, v.cpsr, v.mem, v.rest, .arm⟩
  native _ _ v := ⟨v.gprs, v.cpsr, v.mem, v.rest, .thumb target⟩
  call _ core := core

namespace Core

def view (core : Core F H L S) : View L S where
  gprs := core.arm.gprs
  cpsr := core.arm.cpsr
  executionMode := core.arm.executionMode
  mem := core.mem
  rest := core.rest

/-- The address of the next Thumb instruction. -/
def nextThumb (core : Core F H L S) : Word := core.arm.gpr ARM_PC - 2

/-- Advance the pipeline by one halfword. -/
def shift (bus : Bus L) (core : Core F H L S) : Core F H L S :=
  let pc := core.arm.gpr ARM_PC + 2
  { core with
    arm := { core.arm.setGpr ARM_PC pc with
      prefetch0 := core.arm.prefetch1
      prefetch1 := zext (bus.fetch core.mem pc) } }

/-- Enter Thumb code at `target`. -/
def refill (bus : Bus L) (core : Core F H L S) (target : Word) : Core F H L S :=
  let pc := target &&& -2
  { core with
    arm := { core.arm.setGpr ARM_PC (pc + 2) with
      prefetch0 := zext (bus.fetch core.mem pc)
      prefetch1 := zext (bus.fetch core.mem (pc + 2))
      executionMode := .Thumb } }

/-- Registers and memory as an instruction leaves them. -/
def commit (core : Core F H L S) (e : Effect L S) : Core F H L S :=
  { core with
    arm := { core.arm with gprs := e.gprs, cpsr := e.cpsr }
    mem := e.mem
    rest := e.rest }

/-- Carry out an effect. Falling through leaves `gpr15` to the pipeline. -/
def land (bus : Bus L) (core : Core F H L S) (e : Effect L S) : Core F H L S :=
  match e.next with
  | .seq => { core.commit e with arm := (core.commit e).arm.setGpr ARM_PC (core.arm.gpr ARM_PC) }
  | .thumb target => (core.commit e).refill bus target
  | .arm => { core.commit e with arm := { (core.commit e).arm with executionMode := .ARM } }

/-- `ARMRunFake`. -/
def armRunFake (core : Core F H L S) (opcode : Word) : Core F H L S :=
  { core with
    arm := { core.arm.setGpr ARM_PC (core.arm.gpr ARM_PC - 2) with
      prefetch1 := core.arm.prefetch0
      prefetch0 := opcode } }

/-- The pipeline with another halfword in front. -/
def rearm (core : Core F H L S) (opcode : Word) : Core F H L S :=
  { core with arm := { core.arm with prefetch0 := opcode } }

/-- Inside a breakpoint callback `ARMRunFake` takes back the shift: all that
is left of the two is the halfword in front. -/
theorem armRunFake_shift (bus : Bus L) (core : Core F H L S) (opcode : Word) :
    (core.shift bus).armRunFake opcode = core.rearm opcode := by
  have hgprs : Function.update (Function.update core.arm.gprs ARM_PC (core.arm.gprs ARM_PC + 2)) ARM_PC
      (Function.update core.arm.gprs ARM_PC (core.arm.gprs ARM_PC + 2) ARM_PC - 2) = core.arm.gprs := by
    rw [Function.update_self, BitVec.add_sub_cancel, Function.update_idem,
      Function.update_eq_self]
  simp only [armRunFake, shift, rearm, ARMCore.setGpr, ARMCore.gpr, hgprs]

@[simp] theorem shift_pc (bus : Bus L) (core : Core F H L S) :
    (core.shift bus).arm.gpr ARM_PC = core.arm.gpr ARM_PC + 2 := core.arm.setGpr_self ARM_PC _

/-- What was behind comes next. -/
@[simp] theorem nextThumb_shift (bus : Bus L) (core : Core F H L S) :
    (core.shift bus).nextThumb = core.arm.gpr ARM_PC := by
  rw [nextThumb, shift_pc, BitVec.add_sub_cancel]

/-- In the callback of a `BKPT` at `B` the program counter is `B + 4`. -/
theorem shift_pc_nextThumb (bus : Bus L) (core : Core F H L S) :
    (core.shift bus).arm.gpr ARM_PC = core.nextThumb + 4 := by
  have h : (-2 + 4 : Word) = 2 := rfl
  rw [shift_pc, nextThumb, BitVec.sub_eq_add_neg, BitVec.add_assoc, h]

@[simp] theorem refill_pc (bus : Bus L) (core : Core F H L S) (target : Word) :
    (core.refill bus target).arm.gpr ARM_PC = (target &&& -2) + 2 := core.arm.setGpr_self ARM_PC _

@[simp] theorem nextThumb_refill (bus : Bus L) (core : Core F H L S) (target : Word) :
    (core.refill bus target).nextThumb = target &&& -2 := by
  rw [nextThumb, refill_pc, BitVec.add_sub_cancel]

theorem Hooked.shift {core : Core F H L S} {trapper : TrapperCStruct F H}
    (h : core.Hooked trapper) (bus : Bus L) : (core.shift bus).Hooked trapper :=
  ⟨h.hook, h.registered⟩

theorem Hooked.rearm {core : Core F H L S} {trapper : TrapperCStruct F H}
    (h : core.Hooked trapper) (opcode : Word) : (core.rearm opcode).Hooked trapper :=
  ⟨h.hook, h.registered⟩

theorem bkpt16_land (bus : Bus L) (core : Core F H L S) (e : Effect L S) :
    (core.land bus e).arm.bkpt16 = core.arm.bkpt16 := by
  rw [land]
  cases e.next <;> rfl

theorem registered_land (bus : Bus L) (core : Core F H L S) (e : Effect L S) :
    (core.land bus e).registered = core.registered := by
  rw [land]
  cases e.next <;> rfl

theorem Hooked.land {core : Core F H L S} {trapper : TrapperCStruct F H}
    (h : core.Hooked trapper) (bus : Bus L) (e : Effect L S) :
    (core.land bus e).Hooked trapper :=
  ⟨by rw [bkpt16_land, h.hook], by rw [registered_land, h.registered]⟩

end Core

/-! ## Steps -/

/-- `BKPT`: `0xBE` above the immediate. -/
def isBkpt (op : Word) : Bool := op >>> 8 == 0xbe

def bkptImm (op : Word) : Word := op &&& 0xff

/-- The halfword the trapper plants is the only `BKPT` with its immediate. -/
theorem isBkpt_own_iff (op : Word) :
    (isBkpt op = true ∧ bkptImm op = TRAPPER_IMM) ↔ op = zext trapperBkpt := by
  constructor
  · intro h
    obtain ⟨hop, himm⟩ := h
    have hhigh := congrArg BitVec.toNat (eq_of_beq hop)
    have hlow := congrArg BitVec.toNat himm
    have hmod : op.toNat &&& (0xff : Word).toNat = op.toNat % 2 ^ 8 :=
      Nat.and_two_pow_sub_one_eq_mod op.toNat 8
    rw [BitVec.toNat_ushiftRight, Nat.shiftRight_eq_div_pow] at hhigh
    rw [bkptImm, BitVec.toNat_and, hmod] at hlow
    apply BitVec.eq_of_toNat_eq
    show op.toNat = 0xbeef
    have hhigh' : op.toNat / 2 ^ 8 = 0xbe := hhigh
    have hlow' : op.toNat % 2 ^ 8 = 0xef := hlow
    omega
  · intro h
    subst h
    decide

/-- What happens at a step, as seen from outside. -/
inductive Event (F H : Type) where
  /-- A Thumb instruction: its address, the halfword executed, and the calls
  made on its behalf. -/
  | thumb (addr op : Word) (calls : List (HookCall F H))
  | arm
  /-- An interrupt, with the address at which Thumb code is to resume. -/
  | irq (saved : Option Word)
deriving DecidableEq, Repr

/-- What the next step is: the CPU goes on, or an interrupt comes first. -/
inductive Input where
  | cpu
  | irq
deriving DecidableEq, Repr

namespace Platform

variable (P : Platform F H L S)

/-- The calls of a `BKPT #imm`. A null hook is a call through a null pointer. -/
def bkpt16 (core : Core F H L S) (imm : Word) : Except Fault (List (HookCall F H)) :=
  match core.arm.bkpt16 with
  | none => .error .badPointer
  | some (.native f) => .ok [.real (.native f) imm]
  | some .cTrapperBkpt16 => cTrapperBkpt16 P.build core imm

theorem bkpt16_native {core : Core F H L S} {f : F}
    (h : core.arm.bkpt16 = some (.native f)) (imm : Word) :
    P.bkpt16 core imm = .ok [.real (.native f) imm] := by
  simp only [bkpt16, h]

theorem bkpt16_hooked {core : Core F H L S} {trapper : TrapperCStruct F H}
    (h : core.Hooked trapper) (imm : Word) :
    P.bkpt16 core imm = cTrapperBkpt16 P.build core imm := by
  simp only [bkpt16, h.hook]

/-- The effect of one such call. A hook that has stored itself calls itself
for ever. -/
def perform (core : Core F H L S) : HookCall F H → Except Fault (Core F H L S)
  | .real (.native f) imm => .ok (core.land P.bus (P.native f imm core.view))
  | .real .cTrapperBkpt16 _ => .error .stackOverflow
  | .runFake opcode => .ok (core.armRunFake opcode)
  | .handler _ h => .ok (P.call h core)

def performAll : Core F H L S → List (HookCall F H) → Except Fault (Core F H L S)
  | core, [] => .ok core
  | core, c :: rest =>
      match P.perform core c with
      | .error f => .error f
      | .ok core => performAll core rest

/-- The handler leaves the core unchanged. -/
def Inert (h : H) : Prop := ∀ core, P.call h core = core

/-- One Thumb step. -/
def thumbStep (core : Core F H L S) : Except Fault (Event F H × Core F H L S) :=
  let addr := core.nextThumb
  let op := core.arm.prefetch0
  let core := core.shift P.bus
  if isBkpt op = true then
    -- `irqh.bkpt16(cpu, imm)`, with the pipeline already shifted
    match P.bkpt16 core (bkptImm op) with
    | .error f => .error f
    | .ok calls =>
        match P.performAll core calls with
        | .error f => .error f
        | .ok core => .ok (.thumb addr op calls, core)
  else
    .ok (.thumb addr op [], core.land P.bus (P.thumb op core.view))

/-- The Thumb address an interrupt saves. -/
def saved (core : Core F H L S) : Option Word :=
  match core.arm.executionMode with
  | .ARM => none
  | .Thumb => some core.nextThumb

def step (core : Core F H L S) : Input → Except Fault (Event F H × Core F H L S)
  | .irq =>
      -- taken in ARM code: what the Thumb pipeline held is lost
      .ok (.irq (saved core), core.land P.bus { P.irq core.view with next := .arm })
  | .cpu =>
      match core.arm.executionMode with
      | .ARM => .ok (.arm, core.land P.bus (P.arm core.view))
      | .Thumb => P.thumbStep core

/-- The machine takes a step, seen as `e`. -/
def Step (core : Core F H L S) (e : Event F H) (core' : Core F H L S) : Prop :=
  ∃ i, P.step core i = .ok (e, core')

/-! ## What a Thumb step comes to -/

/-- What executing `op` does where foreign breakpoints go to `f`. -/
def operation (f : F) (op : Word) (v : View L S) : Effect L S :=
  if isBkpt op = true then P.native f (bkptImm op) v else P.thumb op v

/-- The calls made on behalf of `op` where foreign breakpoints go to `f`. -/
def hookCalls (f : F) (op : Word) : List (HookCall F H) :=
  if isBkpt op = true then [.real (.native f) (bkptImm op)] else []

/-- Either the hook is `f`, or it is the trapper's, which has stored `f`, and
`op` is not the trapper's breakpoint. -/
inductive Routes (f : F) (core : Core F H L S) (op : Word) : Prop
  | direct : core.arm.bkpt16 = some (.native f) → Routes f core op
  | hooked (traps : Traps H) : core.Hooked { realBkpt16 := some (.native f), traps } →
      op ≠ zext trapperBkpt → Routes f core op

variable {P}

theorem step_thumb {core : Core F H L S} (h : core.arm.executionMode = .Thumb) :
    P.step core .cpu = P.thumbStep core := by
  simp only [step, h]

theorem step_arm {core : Core F H L S} (h : core.arm.executionMode = .ARM) :
    P.step core .cpu = .ok (.arm, core.land P.bus (P.arm core.view)) := by
  simp only [step, h]

/-- A step that is no trap executes its halfword, with or without traps
installed. -/
theorem thumbStep_operation {f : F} {core : Core F H L S}
    (h : Routes f core core.arm.prefetch0) :
    P.thumbStep core =
      .ok (.thumb core.nextThumb core.arm.prefetch0 (hookCalls f core.arm.prefetch0),
        (core.shift P.bus).land P.bus
          (P.operation f core.arm.prefetch0 (core.shift P.bus).view)) := by
  by_cases hop : isBkpt core.arm.prefetch0 = true
  · have hcalls : P.bkpt16 (core.shift P.bus) (bkptImm core.arm.prefetch0) =
        .ok [.real (.native f) (bkptImm core.arm.prefetch0)] := by
      cases h with
      | direct hhook =>
          have hshift : (core.shift P.bus).arm.bkpt16 = some (.native f) := hhook
          exact P.bkpt16_native hshift _
      | hooked traps hhook hne =>
          -- not the trapper's breakpoint, so not its immediate
          have himm : bkptImm core.arm.prefetch0 ≠ TRAPPER_IMM := by
            intro himm
            exact hne ((isBkpt_own_iff _).mp ⟨hop, himm⟩)
          have hshift := hhook.shift P.bus
          rw [P.bkpt16_hooked hshift]
          exact cTrapperBkpt16_foreign P.build hshift.registered himm
    simp only [thumbStep, if_pos hop, hcalls, performAll, perform, hookCalls, operation]
  · simp only [thumbStep, if_neg hop, hookCalls, operation]

/-- The trapper's own breakpoint at a listed address: the displaced halfword
takes the front of the pipeline, and the handler runs. -/
theorem thumbStep_trap {core : Core F H L S} {trapper : TrapperCStruct F H} {trap : Trap H}
    (hhook : core.Hooked trapper) (hop : core.arm.prefetch0 = zext trapperBkpt)
    (htrap : trapper.traps.lookup core.nextThumb = some trap)
    (hrange : P.build.overflowChecks = true → core.nextThumb.toNat + 4 < 2 ^ 32) :
    P.thumbStep core =
      .ok (.thumb core.nextThumb (zext trapperBkpt)
          [.runFake (zext trap.original), .handler core.nextThumb trap.handler],
        P.call trap.handler (core.rearm (zext trap.original))) := by
  have hcalls : P.bkpt16 (core.shift P.bus) TRAPPER_IMM =
      .ok [.runFake (zext trap.original), .handler core.nextThumb trap.handler] := by
    have hshift := hhook.shift P.bus
    rw [P.bkpt16_hooked hshift]
    exact cTrapperBkpt16_trap P.build hshift.registered (Core.shift_pc_nextThumb P.bus core) htrap hrange
  obtain ⟨hbkpt, himm⟩ := (isBkpt_own_iff _).mpr (Eq.refl (zext trapperBkpt))
  simp only [thumbStep, hop, if_pos hbkpt, himm, hcalls, performAll, perform,
    Core.armRunFake_shift]

/-- The trapper's own breakpoint anywhere else, or too close to the top of
the address space for the checked subtraction. -/
theorem thumbStep_lost {core : Core F H L S} {trapper : TrapperCStruct F H}
    (hhook : core.Hooked trapper) (hop : core.arm.prefetch0 = zext trapperBkpt)
    (hlost : ¬ (core.nextThumb ∈ trapper.traps ∧
      (P.build.overflowChecks = true → core.nextThumb.toNat + 4 < 2 ^ 32))) :
    ∃ fault, P.thumbStep core = .error fault := by
  have hcalls : ∃ fault, P.bkpt16 (core.shift P.bus) TRAPPER_IMM = .error fault := by
    have hshift := hhook.shift P.bus
    rw [P.bkpt16_hooked hshift,
      cTrapperBkpt16_at P.build hshift.registered (Core.shift_pc_nextThumb P.bus core)]
    split
    · exact ⟨_, rfl⟩
    · rename_i hrange
      have hmem : core.nextThumb ∉ trapper.traps := by
        intro hmem
        apply hlost
        refine ⟨hmem, ?_⟩
        intro hchecks
        by_contra hwrap
        exact hrange ⟨hchecks, by omega⟩
      rw [AList.lookup_eq_none.mpr hmem]
      exact ⟨_, rfl⟩
  obtain ⟨fault, hcalls⟩ := hcalls
  obtain ⟨hbkpt, himm⟩ := (isBkpt_own_iff _).mpr (Eq.refl (zext trapperBkpt))
  refine ⟨fault, ?_⟩
  simp only [thumbStep, hop, if_pos hbkpt, himm, hcalls]

end Platform

end MgbaRs
