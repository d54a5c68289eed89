import MgbaRs.Machine.Step

/-!
# `set_thumb_pc` against the rest of the pipeline

Three places encode the pipeline offset: `pc + 2` in `thumb_write_pc`, `- 2`
in `thumb_pc` and `- 4` in the breakpoint hook. `set_thumb_pc_iff` says for
which values they agree; the only ones where they do not are at the top of
the address space, where the C code wraps and a checked build panics.
-/

namespace MgbaRs

variable {F H L S : Type}

/-- `v` with bit 0 cleared. -/
def halfwordOf (v : Word) : Word := v &&& -2

/-- A trap is installed at `a`, and the halfword there is its breakpoint. -/
def TrapAt (P : Platform F H L S) (core : Core F H L S) (a : Word) : Prop :=
  ∃ trapper, core.Hooked trapper ∧ a ∈ trapper.traps ∧ P.bus.fetch core.mem a = trapperBkpt

/-- The CPU as `set_thumb_pc(v)` should leave it, for `A = halfwordOf v`. -/
structure AtThumbPc (P : Platform F H L S) (core : Core F H L S) (v : Word)
    (cpu : ARMCore F) : Prop where
  asQuoted : cpu = (core.arm.setGpr ARM_PC v).ThumbWritePC P.bus core.mem
  region : (cpu.activeRegion, cpu.activeMask) = P.bus.setActiveRegion (halfwordOf v)
  pc : cpu.gpr ARM_PC = halfwordOf v + 2
  front : cpu.prefetch0 = cpu.loadActive P.bus core.mem (halfwordOf v)
  behind : cpu.prefetch1 = cpu.loadActive P.bus core.mem (halfwordOf v + 2)
  frame : ∀ r, r ≠ ARM_PC → cpu.gpr r = core.arm.gpr r
  readBack : cpu.thumbPc P.build = .ok (halfwordOf v)
  /-- The next Thumb step looks the trap up under the key `A`. -/
  lookup : ∀ trapper trap, core.Hooked trapper →
    trapper.traps.lookup (halfwordOf v) = some trap →
    P.bus.fetch core.mem (halfwordOf v) = trapperBkpt →
    ∃ core', P.thumbStep { core with arm := cpu } =
      .ok (.thumb (halfwordOf v) (zext trapperBkpt)
        [.runFake (zext trap.original), .handler (halfwordOf v) trap.handler], core')

/-- `set_thumb_pc(v)` returns, with the CPU where it should be. -/
def SetsThumbPc (P : Platform F H L S) (core : Core F H L S) (v : Word) : Prop :=
  ∃ cpu, core.arm.setThumbPc P.build P.bus core.mem v = .ok cpu ∧ AtThumbPc P core v cpu

/-- When the call returns at all, it is the quoted C code. -/
theorem setThumbPc_eq_ok_iff (P : Platform F H L S) (core : Core F H L S) (v : Word)
    (cpu : ARMCore F) :
    core.arm.setThumbPc P.build P.bus core.mem v = .ok cpu ↔
      (P.build.overflowChecks = true → (halfwordOf v).toNat + 2 < 2 ^ 32) ∧
      cpu = (core.arm.setGpr ARM_PC v).ThumbWritePC P.bus core.mem := by
  have hpc : (core.arm.setGpr ARM_PC v).gpr ARM_PC &&& -WORD_SIZE_THUMB = halfwordOf v := by
    show Function.update core.arm.gprs ARM_PC v ARM_PC &&& -2 = v &&& -2
    rw [Function.update_self]
  rw [ARMCore.setThumbPc, ARMCore.thumbWritePc_eq_ok_iff, hpc]

/-- The fields the quoted C code sets. -/
theorem ThumbWritePC_fields (bus : Bus L) (mem : L → Half) (cpu : ARMCore F) (v : Word) :
    let cpu' := (cpu.setGpr ARM_PC v).ThumbWritePC bus mem
    (cpu'.activeRegion, cpu'.activeMask) = bus.setActiveRegion (halfwordOf v) ∧
      cpu'.gpr ARM_PC = halfwordOf v + 2 ∧
      cpu'.prefetch0 = cpu'.loadActive bus mem (halfwordOf v) ∧
      cpu'.prefetch1 = cpu'.loadActive bus mem (halfwordOf v + 2) ∧
      ∀ r, r ≠ ARM_PC → cpu'.gpr r = cpu.gpr r := by
  have hpc : (cpu.setGpr ARM_PC v).gpr ARM_PC &&& -WORD_SIZE_THUMB = halfwordOf v := by
    show Function.update cpu.gprs ARM_PC v ARM_PC &&& -2 = v &&& -2
    rw [Function.update_self]
  simp only [ARMCore.ThumbWritePC, hpc]
  refine ⟨rfl, ?_, rfl, rfl, ?_⟩
  · exact ARMCore.setGpr_self _ ARM_PC _
  · intro r hr
    have houter := ARMCore.setGpr_of_ne
      ((cpu.setGpr ARM_PC v).enterRegion bus (halfwordOf v)) hr (halfwordOf v + WORD_SIZE_THUMB)
    exact houter.trans (ARMCore.setGpr_of_ne cpu hr v)

/-- The halfword in front of the pipeline is the one a fetch would read. -/
theorem ThumbWritePC_front {bus : Bus L} {v : Word}
    (hregion : bus.RegionContains (halfwordOf v)) (mem : L → Half) (cpu : ARMCore F) :
    ((cpu.setGpr ARM_PC v).ThumbWritePC bus mem).prefetch0 = zext (bus.fetch mem (halfwordOf v)) := by
  obtain ⟨hactive, -, hfront, -, -⟩ := ThumbWritePC_fields bus mem cpu v
  obtain ⟨hregion', hmask⟩ := Prod.mk.inj hactive
  rw [hfront, ARMCore.loadActive, hregion', hmask, hregion mem]

/-- The core after the quoted C code. -/
def afterQuoted (P : Platform F H L S) (core : Core F H L S) (v : Word) : Core F H L S :=
  { core with arm := (core.arm.setGpr ARM_PC v).ThumbWritePC P.bus core.mem }

theorem nextThumb_afterQuoted (P : Platform F H L S) (core : Core F H L S) (v : Word) :
    (afterQuoted P core v).nextThumb = halfwordOf v := by
  obtain ⟨-, hpc, -⟩ := ThumbWritePC_fields P.bus core.mem core.arm v
  show ((core.arm.setGpr ARM_PC v).ThumbWritePC P.bus core.mem).gpr ARM_PC - 2 = _
  rw [hpc, BitVec.add_sub_cancel]

/-- Hook and component slot are not touched. -/
theorem hooked_afterQuoted {P : Platform F H L S} {core : Core F H L S}
    {trapper : TrapperCStruct F H} (h : core.Hooked trapper) (v : Word) :
    (afterQuoted P core v).Hooked trapper := ⟨h.hook, h.registered⟩

/-- With a trap in front, the hook's subtraction must not trip either. -/
theorem AtThumbPc.range {P : Platform F H L S} {core : Core F H L S} {v : Word}
    {cpu : ARMCore F} (h : AtThumbPc P core v cpu)
    (hregion : P.bus.RegionContains (halfwordOf v)) (htrapAt : TrapAt P core (halfwordOf v))
    (hchecks : P.build.overflowChecks = true) : (halfwordOf v).toNat + 4 < 2 ^ 32 := by
  obtain ⟨trapper, hhook, hmem, hbkpt⟩ := htrapAt
  obtain ⟨trap, htrap⟩ := Option.isSome_iff_exists.mp (AList.lookup_isSome.mpr hmem)
  obtain ⟨core', hstep⟩ := h.lookup trapper trap hhook htrap hbkpt
  by_contra hwrap
  have hfront : (afterQuoted P core v).arm.prefetch0 = zext trapperBkpt := by
    rw [← hbkpt]
    exact ThumbWritePC_front hregion core.mem core.arm
  obtain ⟨fault, hfault⟩ := Platform.thumbStep_lost (P := P) (hooked_afterQuoted hhook v) hfront
    (by
      intro hat
      rw [nextThumb_afterQuoted] at hat
      exact hwrap (hat.2 hchecks))
  rw [h.asQuoted] at hstep
  have hcontra := hstep.symm.trans hfault
  cases hcontra

/-- Away from the top of the address space the quoted C code leaves the CPU
where it should be. -/
theorem atThumbPc_afterQuoted {P : Platform F H L S} {core : Core F H L S} {v : Word}
    (hregion : P.bus.RegionContains (halfwordOf v))
    (hrange : P.build.overflowChecks = true → (halfwordOf v).toNat + 2 < 2 ^ 32)
    (htrapRange : P.build.overflowChecks = true → TrapAt P core (halfwordOf v) →
      (halfwordOf v).toNat + 4 < 2 ^ 32) :
    AtThumbPc P core v (afterQuoted P core v).arm := by
  obtain ⟨hactive, hpc, hfront, hbehind, hframe⟩ :=
    ThumbWritePC_fields P.bus core.mem core.arm v
  refine ⟨rfl, hactive, hpc, hfront, hbehind, hframe, ?_, ?_⟩
  · show P.build.sub (((core.arm.setGpr ARM_PC v).ThumbWritePC P.bus core.mem).gpr ARM_PC) 2 = _
    rw [hpc, Build.sub_eq_ok_iff, BitVec.add_sub_cancel]
    refine ⟨?_, rfl⟩
    intro hchecks
    have := hrange hchecks
    rw [BitVec.toNat_add]
    show 2 ≤ ((halfwordOf v).toNat + 2) % 2 ^ 32
    omega
  · intro trapper trap hhook htrap hbkpt
    have hmem : halfwordOf v ∈ trapper.traps := AList.lookup_isSome.mp (by rw [htrap]; rfl)
    have hfetched : (afterQuoted P core v).arm.prefetch0 = zext trapperBkpt := by
      rw [← hbkpt]
      exact ThumbWritePC_front hregion core.mem core.arm
    have hstep := Platform.thumbStep_trap (P := P) (hooked_afterQuoted hhook v) hfetched
      (by rw [nextThumb_afterQuoted]; exact htrap) (by
        intro hchecks
        rw [nextThumb_afterQuoted]
        exact htrapRange hchecks ⟨trapper, hhook, hmem, hbkpt⟩)
    rw [nextThumb_afterQuoted] at hstep
    exact ⟨_, hstep⟩

/-- **`set_thumb_pc`.** It puts the CPU where `thumb_pc` and the hook expect
it exactly when no checked addition or subtraction meets the top of the
address space: the two halfwords after `A` when a trap is installed there,
the one after it otherwise. -/
theorem set_thumb_pc_iff (P : Platform F H L S) (core : Core F H L S) (v : Word)
    (hregion : P.bus.RegionContains (halfwordOf v)) :
    SetsThumbPc P core v ↔
      (P.build.overflowChecks = true →
        (halfwordOf v).toNat + 2 < 2 ^ 32 ∧
        (TrapAt P core (halfwordOf v) → (halfwordOf v).toNat + 4 < 2 ^ 32)) := by
  constructor
  · intro h hchecks
    obtain ⟨cpu, hset, hat⟩ := h
    obtain ⟨hrange, -⟩ := (setThumbPc_eq_ok_iff P core v cpu).mp hset
    exact ⟨hrange hchecks, fun htrapAt => hat.range hregion htrapAt hchecks⟩
  · intro h
    have hrange := fun hchecks => (h hchecks).1
    refine ⟨_, (setThumbPc_eq_ok_iff P core v _).mpr ⟨hrange, rfl⟩, ?_⟩
    exact atThumbPc_afterQuoted hregion hrange (fun hchecks => (h hchecks).2)

/-- At a trap, from an odd value: bit 0 goes, the breakpoint comes in front
and the next step answers it. -/
theorem set_thumb_pc_at_trap :
    SetsThumbPc (Platform.jumper .debug 0x08000000) (stoppedAt 0x08000000) 0x08000001 := by
  apply (set_thumb_pc_iff _ _ _ (Bus.cart_regionContains _)).mpr
  intro _
  exact ⟨by decide, fun _ => by decide⟩

/-- At the last value, in a debug build: `pc += 2` panics where the quoted C
code wraps to 0. -/
theorem set_thumb_pc_overflows :
    (stoppedAt 0x08000000).arm.setThumbPc .debug Bus.cart (stoppedAt 0x08000000).mem
        0xffffffff = .error .overflow ∧
      (((stoppedAt 0x08000000).arm.setGpr ARM_PC 0xffffffff).ThumbWritePC Bus.cart
        (stoppedAt 0x08000000).mem).gpr ARM_PC = 0 ∧
      ¬ SetsThumbPc (Platform.jumper .debug 0x08000000) (stoppedAt 0x08000000) 0xffffffff := by
  have hpanic : (stoppedAt 0x08000000).arm.setThumbPc .debug Bus.cart
      (stoppedAt 0x08000000).mem 0xffffffff = .error .overflow := rfl
  refine ⟨hpanic, rfl, ?_⟩
  intro h
  obtain ⟨cpu, hset, -⟩ := h
  have hcontra := hpanic.symm.trans hset
  cases hcontra

end MgbaRs
