import MgbaRs.Trapper.Install

/-!
# The breakpoint hook

`c_trapper_bkpt16` rebuilds the address `B` of the breakpoint from the
pipelined program counter and looks it up under the raw keys of the table.
`hook_contract_iff` says when this does what an installer expects: forward
every breakpoint that is not its own, answer its own, and never abort.
-/

namespace MgbaRs

variable {F H L S : Type}

/-- What a `BKPT #imm` at `B` should come to: the displaced instruction and
the handler for one of the table's own, the old handler for any other. -/
structure HookContract (b : Build) (core : Core F H L S) (trapper : TrapperCStruct F H)
    (B imm : Word) : Prop where
  own : ∀ trap, imm = TRAPPER_IMM → trapper.traps.lookup B = some trap →
    cTrapperBkpt16 b core imm = .ok [.runFake (zext trap.original), .handler B trap.handler]
  foreign : imm ≠ TRAPPER_IMM ∨ B ∉ trapper.traps →
    ∃ f, trapper.realBkpt16 = some f ∧ cTrapperBkpt16 b core imm = .ok [.real f imm]

/-- The hook's own immediate, by the address of the breakpoint. -/
theorem cTrapperBkpt16_at (b : Build) {core : Core F H L S} {trapper : TrapperCStruct F H}
    (hreg : core.registered = some trapper) {B : Word} (hpc : core.arm.gpr ARM_PC = B + 4) :
    cTrapperBkpt16 b core TRAPPER_IMM =
      if b.overflowChecks = true ∧ 2 ^ 32 ≤ B.toNat + 4 then .error .overflow
      else match trapper.traps.lookup B with
        | none => .error .unwrapNone
        | some trap => .ok [.runFake (zext trap.original), .handler B trap.handler] := by
  have hcaller : b.sub (B + 4) (WORD_SIZE_THUMB * 2) =
      if b.overflowChecks = true ∧ 2 ^ 32 ≤ B.toNat + 4 then .error .overflow else .ok B :=
    b.sub_add_cancel B 4
  rw [cTrapperBkpt16_own b hreg, hpc, hcaller]
  by_cases hwrap : b.overflowChecks = true ∧ 2 ^ 32 ≤ B.toNat + 4
  · simp only [if_pos hwrap]
  · cases hB : trapper.traps.lookup B with
    | none => simp only [if_neg hwrap, hB]
    | some trap => simp only [if_neg hwrap, hB]

/-- The hook answers a trap of the table exactly when the address does not
wrap around, or nobody checks. -/
theorem cTrapperBkpt16_trap (b : Build) {core : Core F H L S} {trapper : TrapperCStruct F H}
    (hreg : core.registered = some trapper) {B : Word} (hpc : core.arm.gpr ARM_PC = B + 4)
    {trap : Trap H} (htrap : trapper.traps.lookup B = some trap)
    (hrange : b.overflowChecks = true → B.toNat + 4 < 2 ^ 32) :
    cTrapperBkpt16 b core TRAPPER_IMM =
      .ok [.runFake (zext trap.original), .handler B trap.handler] := by
  have hsafe : ¬ (b.overflowChecks = true ∧ 2 ^ 32 ≤ B.toNat + 4) := by
    intro h
    have := hrange h.1
    omega
  rw [cTrapperBkpt16_at b hreg hpc, if_neg hsafe, htrap]

/-- What the hook does with its own immediate is never to forward it. -/
theorem cTrapperBkpt16_own_not_real (b : Build) {core : Core F H L S}
    {trapper : TrapperCStruct F H} (hreg : core.registered = some trapper) {B : Word}
    (hpc : core.arm.gpr ARM_PC = B + 4) (f : Bkpt16 F) (imm : Word) :
    cTrapperBkpt16 b core TRAPPER_IMM ≠ .ok [.real f imm] := by
  rw [cTrapperBkpt16_at b hreg hpc]
  split
  · intro h
    cases h
  · split
    · intro h
      cases h
    · intro h
      simp at h

/-- A foreign breakpoint needs a handler to go to, and no more. -/
theorem hook_contract_foreign_iff (b : Build) {core : Core F H L S}
    {trapper : TrapperCStruct F H} (hreg : core.registered = some trapper) (B : Word)
    {imm : Word} (himm : imm ≠ TRAPPER_IMM) :
    HookContract b core trapper B imm ↔ trapper.realBkpt16.isSome = true := by
  have hcall := cTrapperBkpt16_foreign b hreg himm
  constructor
  · intro hlaw
    obtain ⟨f, hf, -⟩ := hlaw.foreign (Or.inl himm)
    rw [hf]
    rfl
  · intro hsome
    obtain ⟨f, hf⟩ := Option.isSome_iff_exists.mp hsome
    rw [hf] at hcall
    constructor
    · intro trap heq
      exact absurd heq himm
    · intro _
      exact ⟨f, hf, hcall⟩

/-- The hook's own breakpoint needs an entry under its address, and room
above it. -/
theorem hook_contract_own_iff (b : Build) {core : Core F H L S}
    {trapper : TrapperCStruct F H} (hreg : core.registered = some trapper) {B : Word}
    (hpc : core.arm.gpr ARM_PC = B + 4) :
    HookContract b core trapper B TRAPPER_IMM ↔
      B ∈ trapper.traps ∧ (b.overflowChecks = true → B.toNat + 4 < 2 ^ 32) := by
  constructor
  · intro hlaw
    by_cases hB : B ∈ trapper.traps
    · refine ⟨hB, ?_⟩
      intro hchecks
      by_contra hwrap
      obtain ⟨trap, htrap⟩ := Option.isSome_iff_exists.mp (AList.lookup_isSome.mpr hB)
      have hcall := hlaw.own trap rfl htrap
      rw [cTrapperBkpt16_at b hreg hpc, if_pos ⟨hchecks, by omega⟩] at hcall
      cases hcall
    · -- an unknown address is unwrapped, not forwarded
      obtain ⟨f, -, hcall⟩ := hlaw.foreign (Or.inr hB)
      exact absurd hcall (cTrapperBkpt16_own_not_real b hreg hpc f _)
  · intro h
    obtain ⟨hB, hrange⟩ := h
    constructor
    · intro trap _ htrap
      exact cTrapperBkpt16_trap b hreg hpc htrap hrange
    · intro hforeign
      rcases hforeign with hne | hnot
      · exact absurd rfl hne
      · exact absurd hB hnot

/-- **The breakpoint hook.** It keeps its contract at `B` exactly when the
breakpoint is foreign and there is a handler to forward it to, or it is the
hook's own, `B` is a key of the table, and `B + 4` does not trip the checked
subtraction. -/
theorem hook_contract_iff (b : Build) {core : Core F H L S} {trapper : TrapperCStruct F H}
    (hreg : core.registered = some trapper) {B : Word} (hpc : core.arm.gpr ARM_PC = B + 4)
    (imm : Word) :
    HookContract b core trapper B imm ↔
      (imm ≠ TRAPPER_IMM ∧ trapper.realBkpt16.isSome = true) ∨
      (imm = TRAPPER_IMM ∧ B ∈ trapper.traps ∧
        (b.overflowChecks = true → B.toNat + 4 < 2 ^ 32)) := by
  by_cases himm : imm = TRAPPER_IMM
  · subst himm
    rw [hook_contract_own_iff b hreg hpc]
    simp
  · rw [hook_contract_foreign_iff b hreg B himm]
    simp [himm]

/-- A core with one trap at `0x08000000`, stopped in a Thumb `BKPT` at `B`. -/
def stoppedAt (B : Word) : Core Unit Unit (BitVec 24) Unit :=
  let core := (Trapper.new Bus.cart (Core.boot () (fun _ => 0x46c0) ()) [(0x08000000, ())]).2
  { core with arm := core.arm.setGpr ARM_PC (B + 4) }

/-- The trap itself: its original runs and its handler is called. -/
theorem hook_contract_trap :
    ∃ trapper, (stoppedAt 0x08000000).registered = some trapper ∧
      HookContract .debug (stoppedAt 0x08000000) trapper 0x08000000 TRAPPER_IMM := by
  refine ⟨_, rfl, ?_⟩
  rw [hook_contract_iff .debug rfl rfl]
  decide

/-- The same ROM halfword, run through its mirror at `0x0a000000`: the lookup
finds nothing and the hook aborts. -/
theorem hook_aborts_at_mirror :
    ∃ trapper, (stoppedAt 0x0a000000).registered = some trapper ∧
      (stoppedAt 0x0a000000).arm.gpr ARM_PC = 0x0a000000 + 4 ∧
      Bus.cart.fetch (stoppedAt 0x0a000000).mem 0x0a000000 = 0xBEEF ∧
      cTrapperBkpt16 .debug (stoppedAt 0x0a000000) TRAPPER_IMM = .error .unwrapNone ∧
      ¬ HookContract .debug (stoppedAt 0x0a000000) trapper 0x0a000000 TRAPPER_IMM := by
  have habort : cTrapperBkpt16 .debug (stoppedAt 0x0a000000) TRAPPER_IMM =
      .error .unwrapNone := rfl
  refine ⟨_, rfl, rfl, rfl, habort, ?_⟩
  intro hlaw
  obtain ⟨f, -, hcall⟩ := hlaw.foreign (Or.inr (by decide))
  rw [habort] at hcall
  cases hcall

end MgbaRs
