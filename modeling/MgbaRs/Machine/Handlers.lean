import MgbaRs.Machine.Transparent
import MgbaRs.Machine.SetPc

/-!
# Traps whose handlers act

A handler gets `&mut Core`: it may set registers, store to memory and move
the program counter with `set_thumb_pc`. What a core with such traps does is
said by a machine without any breakpoints in it (`Attended`): the same core,
without traps, whose attendant looks on. When the next instruction is a
listed one and its handler has not been called yet, the attendant calls it;
the instruction then executes, unless the handler has moved the program
counter or an interrupt comes in between, after which the handler is due
again. Away from the listed addresses a trapped halfword cannot be executed.

`traps_attended` is the refinement: from an installation on, the core with
traps and the attended one answer every sequence of CPU steps and interrupts
alike, faults included. The handler comes before the instruction it stands
for, and decides whether that executes at all.
-/

namespace MgbaRs

variable {F H L S : Type}

/-! ## What handlers do -/

/-- The same core, but for the cached region, which only `thumb_write_pc`
reads. -/
structure Core.SameButRegion (core core' : Core F H L S) : Prop where
  gprs : core.arm.gprs = core'.arm.gprs
  cpsr : core.arm.cpsr = core'.arm.cpsr
  prefetch0 : core.arm.prefetch0 = core'.arm.prefetch0
  prefetch1 : core.arm.prefetch1 = core'.arm.prefetch1
  executionMode : core.arm.executionMode = core'.arm.executionMode
  bkpt16 : core.arm.bkpt16 = core'.arm.bkpt16
  misc1 : core.arm.misc1 = core'.arm.misc1
  mem : core.mem = core'.mem
  rest : core.rest = core'.rest
  boxes : core.boxes = core'.boxes
  next : core.next = core'.next

/-- On Thumb code the function `k` does what the effect `act` says, and does
not leave Thumb code. -/
structure ActsAs (bus : Bus L) (k : Core F H L S → Core F H L S)
    (act : View L S → Effect L S) : Prop where
  lands : ∀ core : Core F H L S, core.arm.executionMode = .Thumb →
    (k core).SameButRegion (core.land bus (act core.view))
  thumb : ∀ v, (act v).next ≠ .arm

/-- Leave everything as it is. -/
def View.stay (v : View L S) : Effect L S where
  gprs := v.gprs
  cpsr := v.cpsr
  mem := v.mem
  rest := v.rest
  next := .seq

/-- What is seen after an effect that falls through. -/
def View.after (v : View L S) (e : Effect L S) : View L S where
  gprs := Function.update e.gprs ARM_PC (v.gprs ARM_PC)
  cpsr := e.cpsr
  executionMode := v.executionMode
  mem := e.mem
  rest := e.rest

theorem Core.SameButRegion.view {core core' : Core F H L S} (h : core.SameButRegion core') :
    core.view = core'.view := by
  simp only [Core.view, h.gprs, h.cpsr, h.executionMode, h.mem, h.rest]

theorem Core.view_land_seq (bus : Bus L) (core : Core F H L S) {e : Effect L S}
    (he : e.next = .seq) : (core.land bus e).view = core.view.after e := by
  simp only [Core.land, he]
  rfl

/-- Landing depends on what an effect leaves alone only. -/
theorem Core.SameButRegion.land {core core' : Core F H L S} (h : core.SameButRegion core')
    (bus : Bus L) (e : Effect L S) : (core.land bus e).SameButRegion (core'.land bus e) := by
  have hpc : core.arm.gpr ARM_PC = core'.arm.gpr ARM_PC := congrFun h.gprs ARM_PC
  cases hnext : e.next with
  | seq =>
      simp only [Core.land, hnext, hpc]
      exact ⟨rfl, rfl, h.prefetch0, h.prefetch1, h.executionMode, h.bkpt16, h.misc1, rfl, rfl,
        h.boxes, h.next⟩
  | thumb target =>
      simp only [Core.land, hnext]
      exact ⟨rfl, rfl, rfl, rfl, rfl, h.bkpt16, h.misc1, rfl, rfl, h.boxes, h.next⟩
  | arm =>
      simp only [Core.land, hnext]
      exact ⟨rfl, rfl, h.prefetch0, h.prefetch1, rfl, h.bkpt16, h.misc1, rfl, rfl, h.boxes,
        h.next⟩

/-- An effect that falls through is undone by the next one, but for what the
latter makes of it. -/
theorem Core.land_land_seq (bus : Bus L) (core : Core F H L S) {e e' : Effect L S}
    (he : e.next = .seq) : (core.land bus e).land bus e' = core.land bus e' := by
  have hpc : (core.land bus e).arm.gpr ARM_PC = core.arm.gpr ARM_PC := by
    simp only [Core.land, he]
    exact ARMCore.setGpr_self _ ARM_PC _
  cases hnext : e'.next with
  | seq =>
      simp only [Core.land, hnext, he] at hpc ⊢
      rw [hpc]
      rfl
  | thumb target =>
      simp only [Core.land, hnext, he]
      rfl
  | arm =>
      simp only [Core.land, hnext, he]
      rfl

theorem Core.SameButRegion.trans {core core' core'' : Core F H L S}
    (h : core.SameButRegion core') (h' : core'.SameButRegion core'') :
    core.SameButRegion core'' :=
  ⟨h.gprs.trans h'.gprs, h.cpsr.trans h'.cpsr, h.prefetch0.trans h'.prefetch0,
    h.prefetch1.trans h'.prefetch1, h.executionMode.trans h'.executionMode,
    h.bkpt16.trans h'.bkpt16, h.misc1.trans h'.misc1, h.mem.trans h'.mem, h.rest.trans h'.rest,
    h.boxes.trans h'.boxes, h.next.trans h'.next⟩

theorem Core.executionMode_land_seq (bus : Bus L) (core : Core F H L S) {e : Effect L S}
    (he : e.next = .seq) : (core.land bus e).arm.executionMode = core.arm.executionMode := by
  simp only [Core.land, he]
  rfl

/-- One thing after another, the first of which leaves the program counter
alone. -/
theorem ActsAs.comp {bus : Bus L} {k k' : Core F H L S → Core F H L S}
    {act act' : View L S → Effect L S} (h : ActsAs bus k act) (h' : ActsAs bus k' act')
    (hseq : ∀ v, (act v).next = .seq) :
    ActsAs bus (fun core => k' (k core)) (fun v => act' (v.after (act v))) where
  lands core hmode := by
    have hfirst := h.lands core hmode
    have hmode' : (k core).arm.executionMode = .Thumb := by
      rw [hfirst.executionMode, Core.executionMode_land_seq bus core (hseq _), hmode]
    have hsecond := (h'.lands (k core) hmode').trans (hfirst.land bus _)
    rw [hfirst.view, Core.view_land_seq bus core (hseq _),
      Core.land_land_seq bus core (hseq _)] at hsecond
    exact hsecond
  thumb v := h'.thumb _

/-- `set_gpr` on a register other than the program counter. -/
theorem actsAs_setGpr (bus : Bus L) {r : Fin 16} (hr : r ≠ ARM_PC) (val : View L S → Word) :
    ActsAs bus
      (fun core : Core F H L S => { core with arm := core.arm.setGpr r (val core.view) })
      (fun v => { v.stay with gprs := Function.update v.gprs r (val v) }) where
  lands core _ := by
    have hgprs : Function.update (Function.update core.arm.gprs r (val core.view)) ARM_PC
        (core.arm.gprs ARM_PC) = Function.update core.arm.gprs r (val core.view) := by
      rw [Function.update_comm hr, Function.update_eq_self]
    exact ⟨hgprs.symm, rfl, rfl, rfl, rfl, rfl, rfl, rfl, rfl, rfl, rfl⟩
  thumb _ := by
    intro h
    cases h

/-- `set_thumb_pc` where its additions do not trip and the region it selects
reaches as far as the second halfword. -/
theorem actsAs_setThumbPc (P : Platform F H L S) {v : Word}
    (hregion : P.bus.RegionContains (halfwordOf v))
    (hsecond : ∀ mem, P.bus.load16 (P.bus.setActiveRegion (halfwordOf v)).1 mem
      ((halfwordOf v + 2) &&& (P.bus.setActiveRegion (halfwordOf v)).2) =
        P.bus.fetch mem (halfwordOf v + 2)) :
    ActsAs P.bus (fun core : Core F H L S => afterQuoted P core v)
      (fun w => { w.stay with next := .thumb v }) where
  lands core hmode := by
    obtain ⟨hactive, hpc, -, hbehind, hframe⟩ := ThumbWritePC_fields P.bus core.mem core.arm v
    obtain ⟨hregion', hmask⟩ := Prod.mk.inj hactive
    rw [ARMCore.loadActive, hregion', hmask, hsecond core.mem] at hbehind
    have hgprs : ((core.arm.setGpr ARM_PC v).ThumbWritePC P.bus core.mem).gprs =
        Function.update core.arm.gprs ARM_PC (halfwordOf v + 2) := by
      funext r
      by_cases hr : r = ARM_PC
      · subst hr
        rw [Function.update_self]
        exact hpc
      · rw [Function.update_of_ne hr]
        exact hframe r hr
    exact
      { gprs := hgprs, cpsr := rfl, prefetch0 := ThumbWritePC_front hregion core.mem core.arm
        prefetch1 := hbehind, executionMode := hmode, bkpt16 := rfl, misc1 := rfl
        mem := rfl, rest := rfl, boxes := rfl, next := rfl }
  thumb _ := by
    intro h
    cases h

/-! ## The attended machine -/

/-- The address stands for a halfword that a listed address stands for. -/
def Shares (bus : Bus L) (addrs : List Word) (a : Word) : Prop :=
  ∃ l, bus.resolve a = some l ∧ Trapped bus addrs l

instance [DecidableEq L] (bus : Bus L) (addrs : List Word) (a : Word) :
    Decidable (Shares bus addrs a) :=
  match h : bus.resolve a with
  | none => isFalse fun ⟨l, hl, _⟩ => by
      rw [h] at hl
      cases hl
  | some l =>
      decidable_of_iff ((addrs.any fun b => decide (bus.resolve b = some l)) = true) <| by
        rw [List.any_eq_true]
        constructor
        · rintro ⟨b, hb, hl⟩
          exact ⟨l, h, b, hb, of_decide_eq_true hl⟩
        · rintro ⟨l', hl', b, hb, hbl⟩
          rw [h] at hl'
          cases hl'
          exact ⟨b, hb, decide_eq_true hbl⟩

/-- With the breakpoints planted, a fetch there reads one. -/
theorem Shares.fetch {bus : Bus L} {addrs : List Word} {a : Word} (h : Shares bus addrs a)
    {mem : L → Half} (planted : ∀ l, Trapped bus addrs l → mem l = trapperBkpt) :
    zext (bus.fetch mem a) = zext trapperBkpt := by
  obtain ⟨l, hl, htrapped⟩ := h
  rw [Bus.fetch_resolved hl, planted l htrapped]

/-- A core without traps, and whether the handler for its next instruction
has been called. -/
structure Attended (F H L S : Type) where
  core : Core F H L S
  served : Bool

/-- What is seen of the attended core: a handler called for an address, or a
step. -/
inductive Happening (F H : Type) where
  | called (a : Word) (h : H)
  | did (e : Event F H)
deriving DecidableEq, Repr

/-- What the hook's calls come to, for whoever looks on. -/
def Event.happening : Event F H → Happening F H
  | .thumb _ _ [.runFake _, .handler a h] => .called a h
  | e => .did e

def Next.isSeq : Next → Bool
  | .seq => true
  | _ => false

namespace Attended

variable [DecidableEq L] (P : Platform F H L S) (act : H → View L S → Effect L S)
  (traps : List (Word × H))

/-- The next instruction is one of a trapped halfword, and its handler has
not been called. -/
def Due (s : Attended F H L S) : Prop :=
  s.core.arm.executionMode = .Thumb ∧ s.served = false ∧
    Shares P.bus (traps.map Prod.fst) s.core.nextThumb

instance (s : Attended F H L S) : Decidable (s.Due P traps) :=
  inferInstanceAs (Decidable (_ ∧ _ ∧ _))

def step (s : Attended F H L S) : Input → Except Fault (Happening F H × Attended F H L S)
  | .irq => (P.step s.core .irq).map fun (e, core) => (.did e, ⟨core, false⟩)
  | .cpu =>
      if s.Due P traps then
        if P.build.overflowChecks = true ∧ 2 ^ 32 ≤ s.core.nextThumb.toNat + 4 then
          .error .overflow
        else match traps.lookup s.core.nextThumb with
          -- reached through another address than the one listed
          | none => .error .unwrapNone
          | some h =>
              let e := act h s.core.view
              .ok (.called s.core.nextThumb h, ⟨s.core.land P.bus e, e.next.isSeq⟩)
      else (P.step s.core .cpu).map fun (e, core) => (.did e, ⟨core, false⟩)

theorem step_due {s : Attended F H L S} (h : s.Due P traps) :
    s.step P act traps .cpu =
      if P.build.overflowChecks = true ∧ 2 ^ 32 ≤ s.core.nextThumb.toNat + 4 then
        .error .overflow
      else match traps.lookup s.core.nextThumb with
        | none => .error .unwrapNone
        | some h =>
            .ok (.called s.core.nextThumb h,
              ⟨s.core.land P.bus (act h s.core.view), (act h s.core.view).next.isSeq⟩) := by
  simp only [step, if_pos h]

theorem step_plain {s : Attended F H L S} (h : ¬ s.Due P traps) :
    s.step P act traps .cpu =
      (P.step s.core .cpu).map fun (e, core) => (.did e, ⟨core, false⟩) := by
  simp only [step, if_neg h]

/-- What a program and its handlers must keep to: the next instruction is no
breakpoint of the trapper's, and nothing that happens touches a trapped
halfword but by fetching it. -/
structure Minds (f : F) (s : Attended F H L S) : Prop where
  own : s.core.arm.executionMode = .Thumb → s.core.arm.prefetch0 ≠ zext trapperBkpt
  thumb : s.core.arm.executionMode = .Thumb → ¬ s.Due P traps →
    Untouched (Trapped P.bus (traps.map Prod.fst)) (P.operation f s.core.arm.prefetch0)
      (s.core.shift P.bus).view
  arm : s.core.arm.executionMode = .ARM →
    Untouched (Trapped P.bus (traps.map Prod.fst)) P.arm s.core.view
  irq : Untouched (Trapped P.bus (traps.map Prod.fst)) P.irq s.core.view
  handler : s.Due P traps → ∀ h, traps.lookup s.core.nextThumb = some h →
    Untouched (Trapped P.bus (traps.map Prod.fst)) (act h) s.core.view

end Attended

/-! ## What a trapped core has in its pipeline -/

/-- The slots fetched from trapped halfwords hold the breakpoint. -/
structure Primed (bus : Bus L) (addrs : List Word) (t : Core F H L S) : Prop where
  front : t.arm.executionMode = .Thumb → Shares bus addrs t.nextThumb →
    t.arm.prefetch0 = zext trapperBkpt
  behind : t.arm.executionMode = .Thumb → Shares bus addrs (t.arm.gpr ARM_PC) →
    t.arm.prefetch1 = zext trapperBkpt

section Primed

variable {bus : Bus L} {addrs : List Word} {t : Core F H L S}

/-- The slot that was behind comes to the front, whatever was there before. -/
theorem Primed.shift
    (hbehind : Shares bus addrs (t.arm.gpr ARM_PC) → t.arm.prefetch1 = zext trapperBkpt)
    (planted : ∀ l, Trapped bus addrs l → t.mem l = trapperBkpt) :
    Primed bus addrs (t.shift bus) where
  front _ hshares := by
    rw [Core.nextThumb_shift] at hshares
    exact hbehind hshares
  behind _ hshares := by
    rw [Core.shift_pc] at hshares
    exact hshares.fetch planted

/-- An effect that keeps the breakpoints, on a core that is primed unless the
effect jumps. -/
theorem Primed.land {e : Effect L S} (h : e.next = .seq → Primed bus addrs t)
    (planted : ∀ l, Trapped bus addrs l → e.mem l = trapperBkpt) :
    Primed bus addrs (t.land bus e) := by
  cases hnext : e.next with
  | seq =>
      have hpc : (t.land bus e).arm.gpr ARM_PC = t.arm.gpr ARM_PC := by
        simp only [Core.land, hnext]
        exact ARMCore.setGpr_self _ ARM_PC _
      have hmode := Core.executionMode_land_seq bus t hnext
      have hslots : (t.land bus e).arm.prefetch0 = t.arm.prefetch0 ∧
          (t.land bus e).arm.prefetch1 = t.arm.prefetch1 := by
        simp only [Core.land, hnext]
        exact ⟨rfl, rfl⟩
      constructor
      · intro hthumb hshares
        rw [Core.nextThumb, hpc] at hshares
        rw [hslots.1]
        exact (h hnext).front (hmode ▸ hthumb) hshares
      · intro hthumb hshares
        rw [hpc] at hshares
        rw [hslots.2]
        exact (h hnext).behind (hmode ▸ hthumb) hshares
  | thumb target =>
      simp only [Core.land, hnext]
      constructor
      · intro _ hshares
        rw [Core.nextThumb_refill] at hshares
        exact hshares.fetch planted
      · intro _ hshares
        rw [Core.refill_pc] at hshares
        exact hshares.fetch planted
  | arm =>
      simp only [Core.land, hnext]
      constructor
      · intro hthumb
        cases hthumb
      · intro hthumb
        cases hthumb

/-- Where they come from does not matter. -/
theorem Primed.region {t' : Core F H L S} (h : Primed bus addrs t) (hsame : t'.SameButRegion t) :
    Primed bus addrs t' where
  front hthumb hshares := by
    rw [hsame.executionMode] at hthumb
    rw [Core.nextThumb, ARMCore.gpr, hsame.gprs] at hshares
    rw [hsame.prefetch0]
    exact h.front hthumb hshares
  behind hthumb hshares := by
    rw [hsame.executionMode] at hthumb
    rw [ARMCore.gpr, hsame.gprs] at hshares
    rw [hsame.prefetch1]
    exact h.behind hthumb hshares

end Primed

/-! ## The trapper's own breakpoint -/

/-- What the trapper's breakpoint comes to, wherever it is executed. -/
theorem Platform.thumbStep_own {P : Platform F H L S} {core : Core F H L S}
    {trapper : TrapperCStruct F H} (hhook : core.Hooked trapper)
    (hop : core.arm.prefetch0 = zext trapperBkpt) :
    P.thumbStep core =
      if P.build.overflowChecks = true ∧ 2 ^ 32 ≤ core.nextThumb.toNat + 4 then .error .overflow
      else match trapper.traps.lookup core.nextThumb with
        | none => .error .unwrapNone
        | some trap => .ok (.thumb core.nextThumb (zext trapperBkpt)
            [.runFake (zext trap.original), .handler core.nextThumb trap.handler],
          P.call trap.handler (core.rearm (zext trap.original))) := by
  have hcalls := cTrapperBkpt16_at P.build (hhook.shift P.bus).registered
    (Core.shift_pc_nextThumb P.bus core)
  rw [← P.bkpt16_hooked (hhook.shift P.bus)] at hcalls
  obtain ⟨hbkpt, himm⟩ := (isBkpt_own_iff _).mpr (Eq.refl (zext trapperBkpt))
  by_cases hwrap : P.build.overflowChecks = true ∧ 2 ^ 32 ≤ core.nextThumb.toNat + 4
  · rw [if_pos hwrap] at hcalls
    simp only [thumbStep, hop, if_pos hbkpt, himm, hcalls, if_pos hwrap]
  · rw [if_neg hwrap] at hcalls
    cases htrap : trapper.traps.lookup core.nextThumb with
    | none =>
        rw [htrap] at hcalls
        simp only [thumbStep, hop, if_pos hbkpt, himm, hcalls, if_neg hwrap]
    | some trap =>
        rw [htrap] at hcalls
        simp only [thumbStep, hop, if_pos hbkpt, himm, hcalls, if_neg hwrap, performAll, perform,
          Core.armRunFake_shift]

/-! ## The relation -/

variable [DecidableEq L]

/-- The trapped core `t` shadows the attended one, and the slots fetched from
trapped halfwords hold the breakpoint, except in front while an instruction
has been served. -/
structure Attends (P : Platform F H L S) (f : F) (I : Installation H L) (t : Core F H L S)
    (s : Attended F H L S) : Prop extends Shadow P f I t s.core where
  front : s.core.arm.executionMode = .Thumb → s.served = false →
    Shares P.bus I.addrs s.core.nextThumb → t.arm.prefetch0 = zext trapperBkpt
  same : s.core.arm.executionMode = .Thumb → s.served = true →
    t.arm.prefetch0 = s.core.arm.prefetch0
  behind : s.core.arm.executionMode = .Thumb → Shares P.bus I.addrs (s.core.arm.gpr ARM_PC) →
    t.arm.prefetch1 = zext trapperBkpt

section Lockstep

variable {P : Platform F H L S} {f : F} {I : Installation H L} {t : Core F H L S}

theorem Shadow.pc {u : Core F H L S} (h : Shadow P f I t u) :
    t.arm.gpr ARM_PC = u.arm.gpr ARM_PC := congrFun h.gprs ARM_PC

theorem Shadow.planted {u : Core F H L S} (h : Shadow P f I t u) :
    ∀ l, Trapped P.bus I.addrs l → t.mem l = trapperBkpt := by
  intro l hl
  rw [h.mem, stampAll_hit hl]

/-- What leaves the trapped halfwords alone has one effect in both cores. -/
theorem Alike.effect {bus : Bus L} {addrs : List Word} {mem₀ : L → Half} {t u : Core F H L S}
    (h : Alike bus addrs mem₀ t u) {op : View L S → Effect L S}
    (hop : Untouched (Trapped bus addrs) op u.view) :
    op t.view = { op u.view with mem := stampAll bus (op u.view).mem addrs } := by
  rw [h.view]
  exact hop.stamped

/-- The relation does not look at the cached region. -/
theorem Shadow.region {t' u : Core F H L S} (h : Shadow P f I t u) (hsame : t'.SameButRegion t) :
    Shadow P f I t' u where
  gprs := hsame.gprs.trans h.gprs
  cpsr := hsame.cpsr.trans h.cpsr
  executionMode := hsame.executionMode.trans h.executionMode
  rest := hsame.rest.trans h.rest
  mem := hsame.mem.trans h.mem
  pristine := h.pristine
  slot0 hthumb := by
    rw [hsame.prefetch0]
    exact h.slot0 hthumb
  slot1 hthumb := by
    rw [hsame.prefetch1]
    exact h.slot1 hthumb
  hooked := ⟨hsame.bkpt16.trans h.hooked.hook, by
    rw [← h.hooked.registered, Core.registered, Core.registered, hsame.misc1, hsame.boxes]⟩
  native := h.native

/-- A primed core attends with nothing served. -/
theorem Shadow.attends {u : Core F H L S} (h : Shadow P f I t u)
    (hprimed : Primed P.bus I.addrs t) : Attends P f I t ⟨u, false⟩ where
  toShadow := h
  front hthumb _ hshares := by
    rw [← h.nextThumb] at hshares
    exact hprimed.front (h.executionMode.trans hthumb) hshares
  same _ hserved := by cases hserved
  behind hthumb hshares := by
    rw [← h.pc] at hshares
    exact hprimed.behind (h.executionMode.trans hthumb) hshares

/-- An instruction that leaves the trapped halfwords alone, on a core that is
primed unless the instruction jumps. -/
theorem Shadow.operate_attends {u : Core F H L S} (h : Shadow P f I t u)
    {op : View L S → Effect L S} (hop : Untouched (Trapped P.bus I.addrs) op u.view)
    (hprimed : (op t.view).next = .seq → Primed P.bus I.addrs t) :
    Attends P f I (t.land P.bus (op t.view)) ⟨u.land P.bus (op u.view), false⟩ := by
  have hlanded := h.operate hop
  refine hlanded.attends (Primed.land hprimed ?_)
  intro l hl
  have hmem : (t.land P.bus (op t.view)).mem = (op t.view).mem := by
    rw [Core.land]
    cases (op t.view).next <;> rfl
  rw [← hmem, hlanded.planted l hl]

/-- What is not due has the same halfword in front of both. -/
theorem Attends.front_eq {traps : List (Word × H)} {s : Attended F H L S}
    (h : Attends P f I t s) (haddrs : I.addrs = traps.map Prod.fst)
    (hthumb : s.core.arm.executionMode = .Thumb) (hdue : ¬ s.Due P traps) :
    t.arm.prefetch0 = s.core.arm.prefetch0 := by
  cases hserved : s.served with
  | true => exact h.same hthumb hserved
  | false =>
      rcases (h.slot0 hthumb).cases with heq | ⟨-, l, hl, htrapped, -⟩
      · exact heq
      · refine absurd ⟨hthumb, hserved, ?_⟩ hdue
        exact ⟨l, hl, haddrs ▸ htrapped⟩

/-- A step without a trap, on both sides. -/
theorem Attends.plain {traps : List (Word × H)} {act : H → View L S → Effect L S}
    {s : Attended F H L S} (h : Attends P f I t s) (haddrs : I.addrs = traps.map Prod.fst)
    (hminds : s.Minds P act traps f) (hthumb : s.core.arm.executionMode = .Thumb)
    (hdue : ¬ s.Due P traps) :
    ∃ e t' u', P.thumbStep t = .ok (e, t') ∧ P.thumbStep s.core = .ok (e, u') ∧
      e.happening = .did e ∧ Attends P f I t' ⟨u', false⟩ := by
  have hown := hminds.own hthumb
  have hfront := h.front_eq haddrs hthumb hdue
  have hroutes : Platform.Routes f t t.arm.prefetch0 :=
    .hooked I.table h.hooked (by rw [hfront]; exact hown)
  have hstep := Platform.thumbStep_operation (P := P) hroutes
  rw [hfront, h.nextThumb] at hstep
  refine ⟨_, _, _, hstep, Platform.thumbStep_operation (.direct h.native), ?_, ?_⟩
  · rw [Platform.hookCalls]
    split <;> rfl
  · have huntouched := hminds.thumb hthumb hdue
    rw [← haddrs] at huntouched
    have hprimed : Primed P.bus I.addrs (t.shift P.bus) := by
      refine Primed.shift ?_ h.planted
      intro hshares
      rw [h.pc] at hshares
      exact h.behind hthumb hshares
    exact (h.toShadow.shift hthumb).operate_attends huntouched (fun _ => hprimed)

/-- What the handler for the next instruction does, on both sides. -/
theorem Attends.serve {k : Core F H L S → Core F H L S} {act : View L S → Effect L S}
    {s : Attended F H L S} (h : Attends P f I t s) (hacts : ActsAs P.bus k act)
    (hthumb : s.core.arm.executionMode = .Thumb)
    (huntouched : Untouched (Trapped P.bus I.addrs) act s.core.view) :
    Attends P f I (k (t.rearm s.core.arm.prefetch0))
      ⟨s.core.land P.bus (act s.core.view), (act s.core.view).next.isSeq⟩ := by
  have hview : (t.rearm s.core.arm.prefetch0).view = t.view := rfl
  have hsame := hacts.lands (t.rearm s.core.arm.prefetch0) (h.executionMode.trans hthumb)
  have heffect : (act t.view).next = (act s.core.view).next := by
    rw [h.toAlike.effect huntouched]
  have hshadow := (h.toShadow.rearm.operate huntouched).region hsame
  have hslots : (act s.core.view).next = .seq →
      ((t.rearm s.core.arm.prefetch0).land P.bus (act t.view)).arm.prefetch0 =
        s.core.arm.prefetch0 ∧
      ((t.rearm s.core.arm.prefetch0).land P.bus (act t.view)).arm.prefetch1 =
        t.arm.prefetch1 ∧
      (s.core.land P.bus (act s.core.view)).arm.prefetch0 = s.core.arm.prefetch0 ∧
      (s.core.land P.bus (act s.core.view)).arm.gpr ARM_PC = s.core.arm.gpr ARM_PC := by
    intro hnext
    simp only [Core.land, hnext, heffect]
    exact ⟨rfl, rfl, rfl, ARMCore.setGpr_self _ ARM_PC _⟩
  cases hnext : (act s.core.view).next with
  | seq =>
      -- the original is in front, and the handler has been called
      obtain ⟨hfront, hbehind, hfront', hpc⟩ := hslots hnext
      refine { toShadow := hshadow, front := ?_, same := ?_, behind := ?_ }
      · intro _ hserved
        cases hserved
      · intro _ _
        rw [hsame.prefetch0, hview, hfront, hfront']
      · intro _ hshares
        rw [hsame.prefetch1, hview, hbehind]
        rw [hpc] at hshares
        exact h.behind hthumb hshares
  | thumb target =>
      -- a new pipeline
      refine hshadow.attends (Primed.region (Primed.land ?_ ?_) hsame)
      · intro hseq
        rw [hview, heffect, hnext] at hseq
        cases hseq
      · intro l hl
        rw [hview, h.toAlike.effect huntouched]
        exact stampAll_hit hl _
  | arm => exact absurd hnext (hacts.thumb _)

/-- A trap that is due, on both sides. -/
theorem Attends.due {traps : List (Word × H)} {act : H → View L S → Effect L S}
    {s : Attended F H L S} (h : Attends P f I t s) (haddrs : I.addrs = traps.map Prod.fst)
    (faithful : I.Faithful P.bus)
    (hlisted : ∀ a, (I.table.lookup a).map Trap.handler = traps.lookup a)
    (hacts : ∀ p ∈ traps, ActsAs P.bus (P.call p.2) (act p.2))
    (hminds : s.Minds P act traps f) (hdue : s.Due P traps) :
    Lts.Matches Event.happening (Attends P f I) (P.thumbStep t) (s.step P act traps .cpu) := by
  obtain ⟨hthumb, hserved, hshares⟩ := id hdue
  have hbkpt := h.front hthumb hserved (haddrs ▸ hshares)
  have hl := hlisted s.core.nextThumb
  rw [Platform.thumbStep_own h.hooked hbkpt, h.nextThumb, Attended.step_due P act traps hdue]
  by_cases hwrap : P.build.overflowChecks = true ∧ 2 ^ 32 ≤ s.core.nextThumb.toNat + 4
  · simp only [if_pos hwrap]
    exact .inl ⟨_, rfl, rfl⟩
  · simp only [if_neg hwrap]
    cases htrap : I.table.lookup s.core.nextThumb with
    | none =>
        rw [htrap] at hl
        simp only [← hl]
        exact .inl ⟨_, rfl, rfl⟩
    | some trap =>
        rw [htrap] at hl
        simp only [← hl]
        -- in front of the attended core is what the trap remembers
        have horiginal : zext trap.original = s.core.arm.prefetch0 := by
          rcases (h.slot0 hthumb).cases with heq | ⟨-, l, hl, -, heq⟩
          · exact absurd (heq.symm.trans hbkpt) (hminds.own hthumb)
          · rw [heq, faithful.original _ trap htrap l hl]
        have huntouched := hminds.handler hdue trap.handler hl.symm
        rw [← haddrs] at huntouched
        obtain ⟨before, after, hsplit, -⟩ := List.lookup_eq_some_iff.mp hl.symm
        have hact := hacts (s.core.nextThumb, trap.handler) (by rw [hsplit]; simp)
        rw [horiginal]
        exact .inr ⟨_, _, _, rfl, rfl, h.serve hact hthumb huntouched⟩

/-- Whatever comes next, both answer alike. -/
theorem Attends.lockstep {traps : List (Word × H)} {act : H → View L S → Effect L S}
    {s : Attended F H L S} (h : Attends P f I t s) (haddrs : I.addrs = traps.map Prod.fst)
    (faithful : I.Faithful P.bus)
    (hlisted : ∀ a, (I.table.lookup a).map Trap.handler = traps.lookup a)
    (hacts : ∀ p ∈ traps, ActsAs P.bus (P.call p.2) (act p.2))
    (hminds : s.Minds P act traps f) (i : Input) :
    Lts.Matches Event.happening (Attends P f I) (P.step t i) (s.step P act traps i) := by
  cases i with
  | irq =>
      have hirq := hminds.irq.redirect .arm
      rw [← haddrs] at hirq
      have hsaved : Platform.saved t = Platform.saved s.core := by
        simp only [Platform.saved, h.executionMode, h.nextThumb]
      refine .inr ⟨_, _, _, rfl, by rw [hsaved]; rfl, h.operate_attends hirq ?_⟩
      intro hseq
      cases hseq
  | cpu =>
      cases hmode : s.core.arm.executionMode with
      | ARM =>
          have harm := hminds.arm hmode
          rw [← haddrs] at harm
          have hnot : ¬ s.Due P traps := by
            intro hdue
            rw [hdue.1] at hmode
            cases hmode
          rw [Platform.step_arm (h.executionMode.trans hmode),
            Attended.step_plain P act traps hnot, Platform.step_arm hmode]
          refine .inr ⟨_, _, _, rfl, rfl, h.operate_attends harm ?_⟩
          -- no Thumb pipeline to speak of
          intro _
          constructor
          · intro hthumb
            rw [h.executionMode, hmode] at hthumb
            cases hthumb
          · intro hthumb
            rw [h.executionMode, hmode] at hthumb
            cases hthumb
      | Thumb =>
          rw [Platform.step_thumb (h.executionMode.trans hmode)]
          by_cases hdue : s.Due P traps
          · exact h.due haddrs faithful hlisted hacts hminds hdue
          · obtain ⟨e, t', u', ht, hu, hdid, hR⟩ := h.plain haddrs hminds hmode hdue
            rw [ht, Attended.step_plain P act traps hdue, Platform.step_thumb hmode, hu]
            exact .inr ⟨e, t', ⟨u', false⟩, rfl, by rw [hdid]; rfl, hR⟩

end Lockstep

/-! ## From an installation on -/

omit [DecidableEq L] in
/-- Such a table answers like the list it was made from. -/
theorem Pristine.lookup_handler {bus : Bus L} {handlers : List (Word × H)}
    {mem₀ mem : L → Half} {table : Traps H} (h : Pristine bus handlers mem₀ table mem) (a : Word) :
    (table.lookup a).map Trap.handler = handlers.lookup a := by
  cases hlookup : handlers.lookup a with
  | none =>
      have hnone : a ∉ table := by
        rw [h.mem_iff]
        intro ha
        obtain ⟨p, hp, rfl⟩ := List.mem_map.mp ha
        exact absurd (List.lookup_eq_none_iff.mp hlookup p hp) (by simp)
      rw [AList.lookup_eq_none.mpr hnone]
      rfl
  | some handler =>
      obtain ⟨before, after, hsplit, -⟩ := List.lookup_eq_some_iff.mp hlookup
      obtain ⟨trap, htrap, hhandler, -⟩ := h.original (a, handler) (by rw [hsplit]; simp)
      rw [htrap, Option.map_some, hhandler]

/-- Right after an installation that found no trapped halfword in the
pipeline, nothing is served. -/
theorem OwnedCore.Installed.attends {P : Platform F H L S} {f : F} {oc oc' : OwnedCore F H L S}
    {traps : List (Word × H)} {table : Traps H}
    (h : OwnedCore.Installed P.bus f oc oc' traps table) (hfresh : oc.Fresh f)
    (hpipeline : oc.core.arm.executionMode = .Thumb →
      ¬ Shares P.bus (traps.map Prod.fst) oc.core.nextThumb ∧
        ¬ Shares P.bus (traps.map Prod.fst) (oc.core.arm.gpr ARM_PC)) :
    Attends P f ⟨traps.map Prod.fst, oc.core.mem, table⟩ oc'.core ⟨oc.core, false⟩ where
  gprs := h.gprs
  cpsr := h.cpsr
  executionMode := h.executionMode
  rest := h.rest
  mem := h.done.memory
  pristine _ _ := rfl
  slot0 _ := by
    rw [h.prefetch0]
    exact .same _
  slot1 _ := by
    rw [h.prefetch1]
    exact .same _
  hooked := h.hooked
  native := hfresh.hook
  front hthumb _ hshares := absurd hshares (hpipeline hthumb).1
  same _ hserved := by cases hserved
  behind hthumb hshares := absurd hshares (hpipeline hthumb).2

/-- What `set_traps` makes of a fresh core, with no trapped halfword in its
pipeline, shadows an attended core with nothing served. -/
theorem OwnedCore.Fresh.installs_attends {P : Platform F H L S} {f : F} {oc : OwnedCore F H L S}
    {traps : List (Word × H)} (fresh : oc.Fresh f) (distinct : (traps.map Prod.fst).Nodup)
    (separate : Separate P.bus traps)
    (pipeline : oc.core.arm.executionMode = .Thumb →
      ¬ Shares P.bus (traps.map Prod.fst) oc.core.nextThumb ∧
        ¬ Shares P.bus (traps.map Prod.fst) (oc.core.arm.gpr ARM_PC)) :
    ∃ oc' table, oc.setTraps P.bus traps = (.ok (), oc') ∧
      let I : Installation H L := ⟨traps.map Prod.fst, oc.core.mem, table⟩
      Attends P f I oc'.core ⟨oc.core, false⟩ ∧ I.Faithful P.bus ∧
        ∀ a, (table.lookup a).map Trap.handler = traps.lookup a := by
  obtain ⟨oc', hset, -⟩ := OwnedCore.setTraps_installs P.bus fresh.trapper distinct
  obtain ⟨table, hinstalled⟩ := fresh.installed hset
  have hpristine := hinstalled.done.pristine_iff.mpr (separate.noCollision _)
  refine ⟨oc', table, hset, hinstalled.attends fresh pipeline, ⟨hpristine.mem_iff, ?_⟩,
    hpristine.lookup_handler⟩
  intro a trap htrap l hl
  obtain ⟨-, -, -, -, horiginal⟩ := hpristine.entry htrap
  exact horiginal l hl

/-- What an installation, its handlers and a program are assumed to be:
distinct addresses for distinct halfwords, none of them in the pipeline yet;
handlers that do what `act` says and stay in Thumb code; and a program that,
attended by them, minds the trapped halfwords. -/
structure Staffed (P : Platform F H L S) (f : F) (act : H → View L S → Effect L S)
    (oc : OwnedCore F H L S) (traps : List (Word × H)) : Prop where
  fresh : oc.Fresh f
  distinct : (traps.map Prod.fst).Nodup
  separate : Separate P.bus traps
  pipeline : oc.core.arm.executionMode = .Thumb →
    ¬ Shares P.bus (traps.map Prod.fst) oc.core.nextThumb ∧
      ¬ Shares P.bus (traps.map Prod.fst) (oc.core.arm.gpr ARM_PC)
  acts : ∀ p ∈ traps, ActsAs P.bus (P.call p.2) (act p.2)
  program : ∀ s, Lts.Reachable (Lts.Answers (Attended.step P act traps)) ⟨oc.core, false⟩ s →
    s.Minds P act traps f

/-- **Traps with handlers that act.** From the installation on, the core with
traps answers every sequence of CPU steps and interrupts like the attended
core without them, with the same faults, and is left in a like state. -/
theorem traps_attended {P : Platform F H L S} {f : F} {act : H → View L S → Effect L S}
    {oc : OwnedCore F H L S} {traps : List (Word × H)} (staffed : Staffed P f act oc traps) :
    ∃ oc', oc.setTraps P.bus traps = (.ok (), oc') ∧
      ∀ inputs, Lts.Matches (List.map Event.happening)
        (fun t s => Alike P.bus (traps.map Prod.fst) oc.core.mem t s.core)
        (Lts.exec P.step oc'.core inputs)
        (Lts.exec (Attended.step P act traps) ⟨oc.core, false⟩ inputs) := by
  obtain ⟨oc', table, hset, hattends, hfaithful, hlisted⟩ :=
    staffed.fresh.installs_attends staffed.distinct staffed.separate staffed.pipeline
  refine ⟨oc', hset, ?_⟩
  intro inputs
  refine (Lts.exec_matches ?_ inputs hattends (Lts.Reachable.refl _)).mono ?_
  · intro t s i hR hreach
    exact hR.lockstep rfl hfaithful hlisted staffed.acts (staffed.program s hreach) i
  · intro t s hR
    exact hR.toAlike

/-! ## A handler that moves on -/

/-- The second halfword behind a jump into the cartridge is still in it. -/
theorem Bus.cart_behind {pc : Word} (hin : 0x04000000 ≤ pc >>> 1 ∧ pc >>> 1 < 0x07000000)
    (hin' : 0x04000000 ≤ (pc + 2) >>> 1 ∧ (pc + 2) >>> 1 < 0x07000000)
    (mem : BitVec 24 → Half) :
    Bus.cart.load16 (Bus.cart.setActiveRegion pc).1 mem
      ((pc + 2) &&& (Bus.cart.setActiveRegion pc).2) = Bus.cart.fetch mem (pc + 2) := by
  simp only [Bus.fetch, Bus.cart, if_pos hin, if_pos hin', if_true]
  rw [setWidth_masked_offset]

/-- The jumper with a handler that sets `r0` and resumes at `0x08000010`. -/
def Platform.diverter (b : Build) : Platform Unit Unit (BitVec 24) Unit :=
  { Platform.jumper b 0x08000000 with
    call := fun _ core =>
      afterQuoted (Platform.jumper b 0x08000000)
        { core with arm := core.arm.setGpr ⟨0, by decide⟩ 1 } 0x08000010 }

/-- What that handler does. -/
def Platform.divert (_ : Unit) (v : View (BitVec 24) Unit) : Effect (BitVec 24) Unit :=
  let w := v.after { v.stay with gprs := Function.update v.gprs ⟨0, by decide⟩ 1 }
  { w.stay with next := .thumb 0x08000010 }

theorem actsAs_divert (b : Build) (p : Unit) :
    ActsAs Bus.cart ((Platform.diverter b).call p) (Platform.divert p) := by
  have hset : ActsAs Bus.cart
      (fun core : Core Unit Unit (BitVec 24) Unit =>
        { core with arm := core.arm.setGpr ⟨0, by decide⟩ 1 })
      (fun v => { v.stay with gprs := Function.update v.gprs ⟨0, by decide⟩ 1 }) :=
    actsAs_setGpr Bus.cart (by decide) (fun _ => 1)
  have hmove := actsAs_setThumbPc (Platform.jumper b 0x08000000) (v := 0x08000010)
    (Bus.cart_regionContains _) (Bus.cart_behind (by decide) (by decide))
  exact hset.comp hmove (fun _ => rfl)

theorem untouched_divert (T : BitVec 24 → Prop) (p : Unit) (v : View (BitVec 24) Unit) :
    Untouched T (Platform.divert p) v := by
  intro mem hmem
  exact ⟨mem, rfl, fun _ _ => rfl, hmem⟩

/-- The next instruction is the harmless one, in memory as well. -/
structure Idling (u : Core Unit Unit (BitVec 24) Unit) : Prop extends Nopping u where
  ahead : u.arm.executionMode = .Thumb → Bus.cart.fetch nops u.nextThumb = 0x46c0

/-- The attended jumper has no breakpoint in front either. -/
theorem diverter_step_idling {b : Build} {s s' : Attended Unit Unit (BitVec 24) Unit} {i : Input}
    {e : Happening Unit Unit} (hs : Nopping s.core)
    (hi : s.step (Platform.diverter b) Platform.divert [(0x08000000, ())] i = .ok (e, s')) :
    Idling s'.core := by
  obtain ⟨hmem, hfront, hnative⟩ := hs
  have hfetch : ∀ a, Bus.cart.fetch nops a = 0x46c0 →
      zext (Bus.cart.fetch s.core.mem a) = zext 0x46c0 := by
    intro a ha
    rw [hmem, ha]
  have hahead : ∀ (core : Core Unit Unit (BitVec 24) Unit) target,
      Bus.cart.fetch nops (target &&& -2) = 0x46c0 →
      Bus.cart.fetch nops (core.refill Bus.cart target).nextThumb = 0x46c0 := by
    intro core target htarget
    rw [Core.nextThumb_refill, htarget]
  cases i with
  | irq =>
      cases hi
      refine ⟨⟨hmem, ?_, hnative⟩, ?_⟩
      · intro h
        cases h
      · intro h
        cases h
  | cpu =>
      by_cases hdue : s.Due (Platform.diverter b) [(0x08000000, ())]
      · -- the handler resumes at an ordinary instruction
        rw [Attended.step_due _ _ _ hdue] at hi
        split at hi
        · cases hi
        · split at hi
          · cases hi
          · cases hi
            exact ⟨⟨hmem, fun _ => hfetch 0x08000010 rfl, hnative⟩,
              fun _ => hahead _ 0x08000010 rfl⟩
      · rw [Attended.step_plain _ _ _ hdue] at hi
        cases hmode : s.core.arm.executionMode with
        | ARM =>
            rw [Platform.step_arm hmode] at hi
            cases hi
            exact ⟨⟨hmem, fun _ => hfetch 0x08000000 rfl, hnative⟩,
              fun _ => hahead _ 0x08000000 rfl⟩
        | Thumb =>
            rw [Platform.step_thumb hmode, Platform.thumbStep_operation (.direct hnative),
              hfront hmode] at hi
            cases hi
            exact ⟨⟨hmem, fun _ => hfetch 0x08000000 rfl, hnative⟩,
              fun _ => hahead _ 0x08000000 rfl⟩

theorem nopping_boot : Nopping (OwnedCore.boot (H := Unit) () nops ()).core := by
  refine ⟨rfl, ?_, rfl⟩
  intro h
  cases h

/-- A core that only ever has that instruction in front minds any trap. -/
theorem Nopping.minds {b : Build} {s : Attended Unit Unit (BitVec 24) Unit}
    (h : Nopping s.core) :
    s.Minds (Platform.diverter b) Platform.divert [(0x08000000, ())] () := by
  refine ⟨?_, ?_, fun _ => untouched_jump _ _ _, untouched_jump _ _ _,
    fun _ p _ => untouched_divert _ p _⟩
  · intro hmode
    rw [h.front hmode]
    decide
  · intro hmode _
    rw [h.front hmode]
    exact untouched_jump _ _ _

/-- A trap whose handler never lets its instruction execute. -/
theorem traps_attended_diverter :
    ∃ oc', (OwnedCore.boot () nops ()).setTraps Bus.cart [(0x08000000, ())] = (.ok (), oc') ∧
      ∀ inputs, Lts.Matches (List.map Event.happening)
        (fun t (s : Attended Unit Unit (BitVec 24) Unit) =>
          Alike Bus.cart [0x08000000] nops t s.core)
        (Lts.exec (Platform.diverter .debug).step oc'.core inputs)
        (Lts.exec (Attended.step (Platform.diverter .debug) Platform.divert [(0x08000000, ())])
          ⟨(OwnedCore.boot () nops ()).core, false⟩ inputs) := by
  refine traps_attended (P := Platform.diverter .debug) (f := ())
    { fresh := OwnedCore.fresh_boot () nops ()
      distinct := by decide
      separate := separate_singleton _ _
      pipeline := ?_
      acts := fun p _ => actsAs_divert .debug p.2
      program := ?_ }
  · intro h
    cases h
  · rintro s ⟨es, hrun⟩
    refine Nopping.minds (hrun.invariant (P := fun s => Nopping s.core) ?_ nopping_boot)
    rintro s e s' hs ⟨i, hi⟩
    exact (diverter_step_idling hs hi).toNopping

end MgbaRs
