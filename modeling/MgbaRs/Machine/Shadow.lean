import MgbaRs.Machine.Step

/-!
# The trapped core and its shadow

Two cores run side by side: one with traps installed, one without. `Shadow`
is what they have in common after any number of steps:

* registers, mode, `rest`, and memory off the trapped halfwords are equal;
  on those the trapped core holds the breakpoint and the other one the
  original (`Alike`);
* each pipeline slot holds the same halfword in both, or a breakpoint here
  and the original there (`Slot`) — the halfwords fetched before the
  installation are of the first kind;
* foreign breakpoints go to the same handler.

`Shadow.trap` is the stutter: a breakpoint that finds its trap leaves the
cores shadowing each other, with the slot in front repaired.
`Shadow.operate` is the step both take.
-/

namespace MgbaRs

variable {F H L S : Type}

/-! ## Programs that leave the traps alone -/

/-- On `v`, the instruction `op` neither reads nor writes the halfwords in
`T`: whatever they hold, it does the same elsewhere and carries them
through. -/
def Untouched (T : L → Prop) (op : View L S → Effect L S) (v : View L S) : Prop :=
  ∀ mem, (∀ l, ¬ T l → mem l = v.mem l) →
    ∃ mem', op { v with mem } = { op v with mem := mem' } ∧
      (∀ l, T l → mem' l = mem l) ∧ ∀ l, ¬ T l → mem' l = (op v).mem l

theorem Untouched.kept {T : L → Prop} {op : View L S → Effect L S} {v : View L S}
    (h : Untouched T op v) {l : L} (hl : T l) : (op v).mem l = v.mem l := by
  obtain ⟨mem', hop, hin, -⟩ := h v.mem (fun _ _ => rfl)
  have hmem : (op v).mem = mem' := congrArg Effect.mem hop
  rw [hmem, hin l hl]

/-- Where control goes afterwards is no access. -/
theorem Untouched.redirect {T : L → Prop} {op : View L S → Effect L S} {v : View L S}
    (h : Untouched T op v) (next : Next) : Untouched T (fun v => { op v with next }) v := by
  intro mem hmem
  obtain ⟨mem', hop, hin, hout⟩ := h mem hmem
  refine ⟨mem', ?_, hin, hout⟩
  simp only [hop]

/-- Run with the traps in place, the instruction leaves them in place. -/
theorem Untouched.stamped [DecidableEq L] {bus : Bus L} {addrs : List Word}
    {op : View L S → Effect L S} {v : View L S} (h : Untouched (Trapped bus addrs) op v) :
    op { v with mem := stampAll bus v.mem addrs } =
      { op v with mem := stampAll bus (op v).mem addrs } := by
  obtain ⟨mem', hop, hin, hout⟩ :=
    h (stampAll bus v.mem addrs) (fun l hl => stampAll_miss hl _)
  have hmem : mem' = stampAll bus (op v).mem addrs := by
    funext l
    by_cases hl : Trapped bus addrs l
    · rw [hin l hl, stampAll_hit hl, stampAll_hit hl]
    · rw [hout l hl, stampAll_miss hl]
  rw [hop, hmem]

/-- What a program must keep to, seen on the core without traps: the next
instruction is no breakpoint of the trapper's, and neither it nor an
interrupt entry touches the halfwords in `T`. -/
structure Behaves (P : Platform F H L S) (f : F) (T : L → Prop) (u : Core F H L S) : Prop where
  thumb : u.arm.executionMode = .Thumb → u.arm.prefetch0 ≠ zext trapperBkpt ∧
    Untouched T (P.operation f u.arm.prefetch0) (u.shift P.bus).view
  arm : u.arm.executionMode = .ARM → Untouched T P.arm u.view
  irq : Untouched T P.irq u.view

/-! ## The relation -/

/-- An installation: the listed addresses, memory before it and the table it
made. -/
structure Installation (H L : Type) where
  addrs : List Word
  mem₀ : L → Half
  table : Traps H

/-- The table remembers the pristine instructions, under the listed keys. -/
structure Installation.Faithful (bus : Bus L) (I : Installation H L) : Prop where
  keys : ∀ a, a ∈ I.table ↔ a ∈ I.addrs
  original : ∀ a trap, I.table.lookup a = some trap →
    ∀ l, bus.resolve a = some l → trap.original = I.mem₀ l

/-- A pipeline slot that fetched from `a`: the same halfword in both cores,
or the breakpoint in one and the original in the other. -/
inductive Slot (bus : Bus L) (I : Installation H L) (a : Word) : Word → Word → Prop
  | same (op : Word) : Slot bus I a op op
  | trapped (l : L) : bus.resolve a = some l → Trapped bus I.addrs l →
      Slot bus I a (zext trapperBkpt) (zext (I.mem₀ l))

variable [DecidableEq L]

/-- The architectural state of the trapped core `t` and the other one `u`. -/
structure Alike (bus : Bus L) (addrs : List Word) (mem₀ : L → Half)
    (t u : Core F H L S) : Prop where
  gprs : t.arm.gprs = u.arm.gprs
  cpsr : t.arm.cpsr = u.arm.cpsr
  executionMode : t.arm.executionMode = u.arm.executionMode
  rest : t.rest = u.rest
  mem : t.mem = stampAll bus u.mem addrs
  pristine : ∀ l, Trapped bus addrs l → u.mem l = mem₀ l

structure Shadow (P : Platform F H L S) (f : F) (I : Installation H L)
    (t u : Core F H L S) : Prop extends Alike P.bus I.addrs I.mem₀ t u where
  slot0 : u.arm.executionMode = .Thumb →
    Slot P.bus I u.nextThumb t.arm.prefetch0 u.arm.prefetch0
  slot1 : u.arm.executionMode = .Thumb →
    Slot P.bus I (u.arm.gpr ARM_PC) t.arm.prefetch1 u.arm.prefetch1
  hooked : t.Hooked { realBkpt16 := some (.native f), traps := I.table }
  native : u.arm.bkpt16 = some (.native f)

/-- What an instruction sees in the one is what it sees in the other, but for
the trapped halfwords. -/
theorem Alike.view {bus : Bus L} {addrs : List Word} {mem₀ : L → Half} {t u : Core F H L S}
    (h : Alike bus addrs mem₀ t u) :
    t.view = { u.view with mem := stampAll bus u.mem addrs } := by
  simp only [Core.view, h.gprs, h.cpsr, h.executionMode, h.rest, h.mem]

theorem Alike.nextThumb {bus : Bus L} {addrs : List Word} {mem₀ : L → Half}
    {t u : Core F H L S} (h : Alike bus addrs mem₀ t u) : t.nextThumb = u.nextThumb := by
  rw [Core.nextThumb, ARMCore.gpr, h.gprs]
  rfl

omit [DecidableEq L] in
/-- A slot is the same in both cores, or it holds a breakpoint here. -/
theorem Slot.cases {bus : Bus L} {I : Installation H L} {a x y : Word}
    (h : Slot bus I a x y) :
    x = y ∨ x = zext trapperBkpt ∧
      ∃ l, bus.resolve a = some l ∧ Trapped bus I.addrs l ∧ y = zext (I.mem₀ l) := by
  cases h with
  | same op => exact Or.inl rfl
  | trapped l hl htrapped => exact Or.inr ⟨rfl, l, hl, htrapped, rfl⟩

/-- A fetch fills a slot. -/
theorem Slot.fetch {bus : Bus L} {I : Installation H L} {mem : L → Half}
    (pristine : ∀ l, Trapped bus I.addrs l → mem l = I.mem₀ l) (a : Word) :
    Slot bus I a (zext (bus.fetch (stampAll bus mem I.addrs) a)) (zext (bus.fetch mem a)) := by
  cases ha : bus.resolve a with
  | none =>
      rw [Bus.fetch_unresolved ha, Bus.fetch_unresolved ha]
      exact .same _
  | some l =>
      rw [Bus.fetch_resolved ha, Bus.fetch_resolved ha]
      by_cases hl : Trapped bus I.addrs l
      · rw [stampAll_hit hl, pristine l hl]
        exact .trapped l ha hl
      · rw [stampAll_miss hl]
        exact .same _

/-! ## What preserves it -/

section Preservation

variable {P : Platform F H L S} {f : F} {I : Installation H L} {t u : Core F H L S}

theorem Shadow.shift (h : Shadow P f I t u) (hthumb : u.arm.executionMode = .Thumb) :
    Shadow P f I (t.shift P.bus) (u.shift P.bus) := by
  have hpc : t.arm.gpr ARM_PC = u.arm.gpr ARM_PC := congrFun h.gprs ARM_PC
  refine { gprs := ?_, cpsr := h.cpsr, executionMode := h.executionMode, rest := h.rest,
           mem := h.mem, pristine := h.pristine, slot0 := ?_, slot1 := ?_,
           hooked := h.hooked.shift P.bus, native := h.native }
  · show Function.update t.arm.gprs ARM_PC (t.arm.gpr ARM_PC + 2) =
      Function.update u.arm.gprs ARM_PC (u.arm.gpr ARM_PC + 2)
    rw [hpc, h.gprs]
  · -- the second slot comes to the front
    intro _
    rw [Core.nextThumb_shift]
    exact h.slot1 hthumb
  · -- and a new one is fetched behind it
    intro _
    rw [Core.shift_pc]
    show Slot P.bus I _ (zext (P.bus.fetch t.mem (t.arm.gpr ARM_PC + 2)))
      (zext (P.bus.fetch u.mem (u.arm.gpr ARM_PC + 2)))
    rw [hpc, h.mem]
    exact Slot.fetch h.pristine _

/-- Equal effects, up to the trapped halfwords, land alike. -/
theorem Shadow.land (h : Shadow P f I t u) (e : Effect L S)
    (kept : ∀ l, Trapped P.bus I.addrs l → e.mem l = u.mem l) :
    Shadow P f I (t.land P.bus { e with mem := stampAll P.bus e.mem I.addrs })
      (u.land P.bus e) := by
  have hpc : t.arm.gpr ARM_PC = u.arm.gpr ARM_PC := congrFun h.gprs ARM_PC
  have pristine : ∀ l, Trapped P.bus I.addrs l → e.mem l = I.mem₀ l := by
    intro l hl
    rw [kept l hl, h.pristine l hl]
  have hooked := h.hooked.land P.bus { e with mem := stampAll P.bus e.mem I.addrs }
  cases hnext : e.next with
  | seq =>
      simp only [Core.land, hnext] at hooked ⊢
      have hgpr : (Function.update e.gprs ARM_PC (u.arm.gpr ARM_PC)) ARM_PC = u.arm.gpr ARM_PC :=
        Function.update_self ..
      refine { gprs := ?_, cpsr := rfl, executionMode := h.executionMode, rest := rfl,
               mem := rfl, pristine := pristine, slot0 := ?_, slot1 := ?_,
               hooked := hooked, native := h.native }
      · show Function.update e.gprs ARM_PC (t.arm.gpr ARM_PC) = Function.update e.gprs ARM_PC (u.arm.gpr ARM_PC)
        rw [hpc]
      · intro hthumb
        show Slot P.bus I (Function.update e.gprs ARM_PC (u.arm.gpr ARM_PC) ARM_PC - 2) _ _
        rw [hgpr]
        exact h.slot0 hthumb
      · intro hthumb
        show Slot P.bus I (Function.update e.gprs ARM_PC (u.arm.gpr ARM_PC) ARM_PC) _ _
        rw [hgpr]
        exact h.slot1 hthumb
  | thumb target =>
      -- both slots are fetched anew
      simp only [Core.land, hnext] at hooked ⊢
      refine { gprs := rfl, cpsr := rfl, executionMode := rfl, rest := rfl,
               mem := rfl, pristine := pristine, slot0 := ?_, slot1 := ?_,
               hooked := hooked, native := h.native }
      · intro _
        rw [Core.nextThumb_refill]
        exact Slot.fetch pristine _
      · intro _
        rw [Core.refill_pc]
        exact Slot.fetch pristine _
  | arm =>
      -- no Thumb pipeline is left to compare
      simp only [Core.land, hnext] at hooked ⊢
      refine { gprs := rfl, cpsr := rfl, executionMode := rfl, rest := rfl,
               mem := rfl, pristine := pristine, slot0 := ?_, slot1 := ?_,
               hooked := hooked, native := h.native }
      · intro hthumb
        cases hthumb
      · intro hthumb
        cases hthumb

/-- An instruction that leaves the trapped halfwords alone. -/
theorem Shadow.operate (h : Shadow P f I t u) {op : View L S → Effect L S}
    (hop : Untouched (Trapped P.bus I.addrs) op u.view) :
    Shadow P f I (t.land P.bus (op t.view)) (u.land P.bus (op u.view)) := by
  have heffect : op t.view =
      { op u.view with mem := stampAll P.bus (op u.view).mem I.addrs } := by
    rw [h.view]
    exact hop.stamped
  rw [heffect]
  apply h.land
  intro l hl
  exact hop.kept hl

/-- The original takes the front of the pipeline: that slot is now the same
in both cores. -/
theorem Shadow.rearm (h : Shadow P f I t u) :
    Shadow P f I (t.rearm u.arm.prefetch0) u where
  gprs := h.gprs
  cpsr := h.cpsr
  executionMode := h.executionMode
  rest := h.rest
  mem := h.mem
  pristine := h.pristine
  slot0 _ := .same _
  slot1 := h.slot1
  hooked := h.hooked.rearm _
  native := h.native

end Preservation

end MgbaRs
