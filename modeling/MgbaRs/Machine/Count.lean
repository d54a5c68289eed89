import MgbaRs.Machine.Step
import MgbaRs.Trapper.Chain
import Mathlib.Data.List.Chain

/-!
# How often a handler runs

The handler of a trap is called when its breakpoint executes; the displaced
instruction is then queued and executes at the next CPU step, if there is one
before the next interrupt. Along any run of the trapped core

  `calls + pending at the start = executions + pending at the end + strays`

(`ledger`), where a stray is an interrupt that throws the queued instruction
away. The handler runs once for each execution exactly when there are none
(`calls_balanced_iff`).

The step law behind it: a step leaves the displaced instruction pending iff
it called the handler, and executes it iff it was pending and no interrupt
came (`Guarded.step`).
-/

namespace MgbaRs

variable {F H L S : Type}

/-! ## Counting -/

/-- How often the event calls the handler of the trap at `A`. -/
def Event.calls (A : Word) : Event F H → Nat
  | .thumb _ _ calls => calls.countP fun
      | .handler caller _ => caller == A
      | _ => false
  | .arm => 0
  | .irq _ => 0

/-- Whether the event executes the instruction `original` at `A`. -/
def Event.executes (A : Word) (original : Half) : Event F H → Nat
  | .thumb addr op _ => if addr = A ∧ op = zext original then 1 else 0
  | .arm => 0
  | .irq _ => 0

def Event.isIrq : Event F H → Bool
  | .irq _ => true
  | _ => false

def calls (A : Word) (es : List (Event F H)) : Nat := (es.map (Event.calls A)).sum

def executions (A : Word) (original : Half) (es : List (Event F H)) : Nat :=
  (es.map (Event.executes A original)).sum

/-- Whether `original` is queued to execute next at `A`. -/
def pending (A : Word) (original : Half) (core : Core F H L S) : Nat :=
  if core.arm.executionMode = .Thumb ∧ core.nextThumb = A ∧ core.arm.prefetch0 = zext original
  then 1 else 0

/-- As many calls of the handler as executions of the instruction, and one
more while it is pending. -/
def Balanced (A : Word) (original : Half) (es : List (Event F H)) (core : Core F H L S) : Prop :=
  calls A es = executions A original es + pending A original core

/-- The interrupts that come right after a call, in a run that starts with
`queued` calls unserved. -/
def strays (A : Word) : Nat → List (Event F H) → Nat
  | _, [] => 0
  | queued, e :: es => (if e.isIrq = true then queued else 0) + strays A (e.calls A) es

/-- No interrupt comes right after a call of the handler of `A`. -/
def Uninterrupted (A : Word) (es : List (Event F H)) : Prop :=
  es.IsChain fun e e' => e'.isIrq = true → e.calls A = 0

theorem strays_eq_zero_iff (A : Word) (queued : Nat) (es : List (Event F H)) :
    strays A queued es = 0 ↔
      (∀ e ∈ es.head?, e.isIrq = true → queued = 0) ∧ Uninterrupted A es := by
  induction es generalizing queued with
  | nil => simp [strays, Uninterrupted]
  | cons e es ih =>
      have hchain : Uninterrupted A (e :: es) ↔
          (∀ e' ∈ es.head?, e'.isIrq = true → e.calls A = 0) ∧ Uninterrupted A es :=
        List.isChain_cons
      rw [strays, Nat.add_eq_zero_iff, ih, hchain]
      simp only [List.head?_cons, Option.mem_some_iff, forall_eq', ite_eq_right_iff]

/-- A foreign breakpoint calls no handler of the table. -/
theorem calls_hookCalls (A addr op : Word) (f : F) :
    (Event.thumb addr op (Platform.hookCalls f op) : Event F H).calls A = 0 := by
  rw [Event.calls, Platform.hookCalls]
  split
  · rfl
  · rfl

/-! ## The invariant -/

/-- A program that leaves the trapped halfwords as they are: neither the next
instruction nor an interrupt entry writes to them. -/
structure FetchOnly (P : Platform F H L S) (f : F) (T : L → Prop) (t : Core F H L S) : Prop where
  thumb : t.arm.executionMode = .Thumb → t.arm.prefetch0 ≠ zext trapperBkpt →
    ∀ l, T l → (P.operation f t.arm.prefetch0 (t.shift P.bus).view).mem l = t.mem l
  arm : t.arm.executionMode = .ARM → ∀ l, T l → (P.arm t.view).mem l = t.mem l
  irq : ∀ l, T l → (P.irq t.view).mem l = t.mem l

theorem FetchOnly.mono {P : Platform F H L S} {f : F} {T T' : L → Prop} {t : Core F H L S}
    (h : FetchOnly P f T t) (hsub : ∀ l, T' l → T l) : FetchOnly P f T' t where
  thumb hmode hop l hl := h.thumb hmode hop l (hsub l hl)
  arm hmode l hl := h.arm hmode l (hsub l hl)
  irq l hl := h.irq l (hsub l hl)

/-- A table all of whose keys are in memory and none of whose originals is
the breakpoint itself. -/
structure Clean (bus : Bus L) (table : Traps H) : Prop where
  resolved : ∀ a ∈ table, ∃ l, bus.resolve a = some l
  original : ∀ a trap, table.lookup a = some trap → zext trap.original ≠ zext trapperBkpt

/-- What a trapped core keeps: the breakpoints stand, and a slot fetched at a
key holds the breakpoint, or, in front, the displaced instruction. -/
structure Guarded (P : Platform F H L S) (f : F) (table : Traps H) (t : Core F H L S) : Prop where
  hooked : t.Hooked { realBkpt16 := some (.native f), traps := table }
  planted : ∀ l, Trapped P.bus table.keys l → t.mem l = trapperBkpt
  front : t.arm.executionMode = .Thumb → ∀ trap, table.lookup t.nextThumb = some trap →
    t.arm.prefetch0 = zext trapperBkpt ∨ t.arm.prefetch0 = zext trap.original
  behind : t.arm.executionMode = .Thumb → t.arm.gpr ARM_PC ∈ table →
    t.arm.prefetch1 = zext trapperBkpt

/-- Nothing is queued: a slot in front fetched at a key holds the breakpoint. -/
def Unarmed (table : Traps H) (t : Core F H L S) : Prop :=
  t.arm.executionMode = .Thumb → t.nextThumb ∈ table → t.arm.prefetch0 = zext trapperBkpt

theorem Unarmed.pending {bus : Bus L} {table : Traps H} {t : Core F H L S}
    (h : Unarmed table t) (clean : Clean bus table) {A : Word} {trap : Trap H}
    (hA : table.lookup A = some trap) : pending A trap.original t = 0 := by
  rw [MgbaRs.pending, if_neg]
  intro hqueued
  obtain ⟨hmode, rfl, hop⟩ := hqueued
  have hmem : t.nextThumb ∈ table := AList.lookup_isSome.mp (by rw [hA]; rfl)
  rw [h hmode hmem] at hop
  exact clean.original _ trap hA hop.symm

/-- A fetch at a key reads the breakpoint. -/
theorem fetch_planted {bus : Bus L} {table : Traps H} (clean : Clean bus table)
    {mem : L → Half} (planted : ∀ l, Trapped bus table.keys l → mem l = trapperBkpt) {a : Word}
    (ha : a ∈ table) : zext (bus.fetch mem a) = zext trapperBkpt := by
  obtain ⟨l, hl⟩ := clean.resolved a ha
  rw [Bus.fetch_resolved hl, planted l ⟨a, ha, hl⟩]

section Preservation

variable {P : Platform F H L S} {f : F} {table : Traps H} {t : Core F H L S}

/-- The pipeline moves on to a slot that was behind. -/
theorem Guarded.shift (h : Guarded P f table t) (clean : Clean P.bus table)
    (hthumb : t.arm.executionMode = .Thumb) :
    Guarded P f table (t.shift P.bus) ∧ Unarmed table (t.shift P.bus) := by
  have hunarmed : Unarmed table (t.shift P.bus) := by
    intro _ hkey
    rw [Core.nextThumb_shift] at hkey
    exact h.behind hthumb hkey
  refine ⟨⟨h.hooked.shift P.bus, h.planted, ?_, ?_⟩, hunarmed⟩
  · intro hmode trap htrap
    exact Or.inl (hunarmed hmode (AList.lookup_isSome.mp (by rw [htrap]; rfl)))
  · intro _ hkey
    rw [Core.shift_pc] at hkey
    exact fetch_planted clean h.planted hkey

/-- Where an effect lands, nothing is queued — unless it just falls through
with something queued. -/
theorem Guarded.land (h : Guarded P f table t) (clean : Clean P.bus table) (e : Effect L S)
    (kept : ∀ l, Trapped P.bus table.keys l → e.mem l = t.mem l)
    (hqueued : e.next = .seq → Unarmed table t) :
    Guarded P f table (t.land P.bus e) ∧ Unarmed table (t.land P.bus e) := by
  have planted : ∀ l, Trapped P.bus table.keys l → e.mem l = trapperBkpt := by
    intro l hl
    rw [kept l hl, h.planted l hl]
  have hooked := h.hooked.land P.bus e
  cases hnext : e.next with
  | seq =>
      -- the pipeline stays, so what was in front must not be queued
      have hunarmed := hqueued hnext
      simp only [Core.land, hnext] at hooked ⊢
      have hpc : ((t.commit e).arm.setGpr ARM_PC (t.arm.gpr ARM_PC)).gpr ARM_PC = t.arm.gpr ARM_PC :=
        ARMCore.setGpr_self _ ARM_PC _
      have hnextThumb :
          ({ t.commit e with arm := (t.commit e).arm.setGpr ARM_PC (t.arm.gpr ARM_PC) } :
            Core F H L S).nextThumb = t.nextThumb := by
        rw [Core.nextThumb, hpc]
        rfl
      refine ⟨⟨hooked, planted, ?_, ?_⟩, ?_⟩
      · intro hmode trap htrap
        rw [hnextThumb] at htrap
        exact h.front hmode trap htrap
      · intro hmode hkey
        rw [hpc] at hkey
        exact h.behind hmode hkey
      · intro hmode hkey
        rw [hnextThumb] at hkey
        exact hunarmed hmode hkey
  | thumb target =>
      simp only [Core.land, hnext] at hooked ⊢
      have hfront : Unarmed table ((t.commit e).refill P.bus target) := by
        intro _ hkey
        rw [Core.nextThumb_refill] at hkey
        exact fetch_planted clean planted hkey
      refine ⟨⟨hooked, planted, ?_, ?_⟩, hfront⟩
      · intro hmode trap htrap
        exact Or.inl (hfront hmode (AList.lookup_isSome.mp (by rw [htrap]; rfl)))
      · intro _ hkey
        rw [Core.refill_pc] at hkey
        exact fetch_planted clean planted hkey
  | arm =>
      -- ARM code has no Thumb pipeline
      simp only [Core.land, hnext] at hooked ⊢
      refine ⟨⟨hooked, planted, ?_, ?_⟩, ?_⟩
      · intro hmode
        cases hmode
      · intro hmode
        cases hmode
      · intro hmode
        cases hmode

/-- What one step does to the books of one trap. -/
structure Posted (A : Word) (original : Half) (t : Core F H L S) (e : Event F H)
    (t' : Core F H L S) : Prop where
  called : pending A original t' = e.calls A
  served : e.executes A original = if e.isIrq = true then 0 else pending A original t

/-- A step that calls no handler and executes what is in front, if anything. -/
theorem Unarmed.posted {A : Word} {trap : Trap H} {e : Event F H} {t' : Core F H L S}
    (h : Unarmed table t') (clean : Clean P.bus table) (hA : table.lookup A = some trap)
    (hcalls : e.calls A = 0)
    (hserved : e.executes A trap.original =
      if e.isIrq = true then 0 else MgbaRs.pending A trap.original t) :
    Posted A trap.original t e t' :=
  ⟨by rw [h.pending clean hA, hcalls], hserved⟩

/-- A trap: the handler is called and the displaced instruction queued. -/
theorem Guarded.trap (h : Guarded P f table t) (clean : Clean P.bus table)
    (hmode : t.arm.executionMode = .Thumb) (hop : t.arm.prefetch0 = zext trapperBkpt)
    {own : Trap H} (hown : table.lookup t.nextThumb = some own) :
    Guarded P f table (t.rearm (zext own.original)) ∧
      ∀ A trap, table.lookup A = some trap →
        Posted A trap.original t
          (.thumb t.nextThumb (zext trapperBkpt)
            [.runFake (zext own.original), .handler t.nextThumb own.handler])
          (t.rearm (zext own.original)) := by
  constructor
  · refine ⟨h.hooked.rearm _, h.planted, ?_, h.behind⟩
    intro _ trap htrap
    have heq : some own = some trap := hown.symm.trans htrap
    cases heq
    exact Or.inr rfl
  · intro A trap hA
    have hne := clean.original A trap hA
    by_cases haddr : t.nextThumb = A
    · -- its own books: one call, one instruction queued
      subst haddr
      have heq : some own = some trap := hown.symm.trans hA
      cases heq
      constructor
      · have hqueued : pending t.nextThumb own.original (t.rearm (zext own.original)) = 1 :=
          if_pos ⟨hmode, rfl, rfl⟩
        rw [hqueued]
        simp [Event.calls]
      · simp [Event.executes, Event.isIrq, pending, hop, hne.symm]
    · -- everyone else's are untouched
      have hnext : (t.rearm (zext own.original)).nextThumb ≠ A := haddr
      constructor
      · simp [pending, hnext, Event.calls, haddr]
      · simp [Event.executes, Event.isIrq, pending, haddr]

/-- **One step**: the invariant is kept, the displaced instruction is pending
afterwards iff its handler was called, and it is executed iff it was pending
and no interrupt came. -/
theorem Guarded.step (h : Guarded P f table t) (clean : Clean P.bus table)
    (inert : ∀ a trap, table.lookup a = some trap → P.Inert trap.handler)
    (fetchOnly : FetchOnly P f (Trapped P.bus table.keys) t) {e : Event F H} {t' : Core F H L S}
    (hstep : P.Step t e t') :
    Guarded P f table t' ∧
      ∀ A trap, table.lookup A = some trap → Posted A trap.original t e t' := by
  obtain ⟨i, hi⟩ := hstep
  cases i with
  | irq =>
      cases hi
      obtain ⟨hguarded, hunarmed⟩ := h.land clean { P.irq t.view with next := .arm }
        fetchOnly.irq (fun hseq => by cases hseq)
      exact ⟨hguarded, fun A trap hA => hunarmed.posted clean hA rfl rfl⟩
  | cpu =>
      cases hmode : t.arm.executionMode with
      | ARM =>
          rw [Platform.step_arm hmode] at hi
          cases hi
          have hqueued : Unarmed table t := by
            intro hthumb
            rw [hmode] at hthumb
            cases hthumb
          obtain ⟨hguarded, hunarmed⟩ := h.land clean _ (fetchOnly.arm hmode) (fun _ => hqueued)
          refine ⟨hguarded, fun A trap hA => hunarmed.posted clean hA rfl ?_⟩
          exact (hqueued.pending clean hA).symm
      | Thumb =>
          rw [Platform.step_thumb hmode] at hi
          by_cases hop : t.arm.prefetch0 = zext trapperBkpt
          · by_cases hlisted : t.nextThumb ∈ table ∧
                (P.build.overflowChecks = true → t.nextThumb.toNat + 4 < 2 ^ 32)
            · obtain ⟨own, hown⟩ :=
                Option.isSome_iff_exists.mp (AList.lookup_isSome.mpr hlisted.1)
              rw [Platform.thumbStep_trap h.hooked hop hown hlisted.2, inert _ own hown] at hi
              cases hi
              exact h.trap clean hmode hop hown
            · -- an unknown breakpoint ends the run
              obtain ⟨fault, hfault⟩ := Platform.thumbStep_lost (P := P) h.hooked hop hlisted
              rw [hfault] at hi
              cases hi
          · -- any other instruction, the displaced one included
            rw [Platform.thumbStep_operation (.hooked table h.hooked hop)] at hi
            cases hi
            obtain ⟨hshift, hunarmed⟩ := h.shift clean hmode
            obtain ⟨hguarded, hunarmed'⟩ :=
              hshift.land clean _ (fetchOnly.thumb hmode hop) (fun _ => hunarmed)
            refine ⟨hguarded, fun A trap hA => hunarmed'.posted clean hA ?_ ?_⟩
            · exact calls_hookCalls A _ _ f
            · simp only [Event.executes, Event.isIrq, MgbaRs.pending, hmode, true_and]
              rfl

end Preservation

/-! ## Whole runs -/

/-- **The ledger** of one trap over a run: every call of the handler has been
followed by the displaced instruction, except for one that may still be
pending, and for the strays. -/
theorem Guarded.ledger {P : Platform F H L S} {f : F} {table : Traps H} {s t : Core F H L S}
    (clean : Clean P.bus table)
    (inert : ∀ a trap, table.lookup a = some trap → P.Inert trap.handler)
    {es : List (Event F H)} (hrun : Lts.Run P.Step s es t) (h : Guarded P f table s)
    (fetchOnly : ∀ x, Lts.Reachable P.Step s x → FetchOnly P f (Trapped P.bus table.keys) x)
    {A : Word} {trap : Trap H} (hA : table.lookup A = some trap) :
    calls A es + pending A trap.original s =
      executions A trap.original es + pending A trap.original t +
        strays A (pending A trap.original s) es := by
  induction hrun with
  | nil s => simp [calls, executions, strays]
  | @cons s s₁ t e es hstep hrest ih =>
      obtain ⟨h₁, hposted⟩ := h.step clean inert (fetchOnly s (Lts.Reachable.refl s)) hstep
      obtain ⟨hcalled, hserved⟩ := hposted A trap hA
      have hbooks := ih h₁ (by
        intro x hx
        obtain ⟨es', hes'⟩ := hx
        exact fetchOnly x ⟨e :: es', .cons hstep hes'⟩)
      simp only [calls, executions, List.map_cons, List.sum_cons, strays, ← hcalled, hserved]
        at hbooks ⊢
      -- what was pending before the step is served by it, or goes astray
      cases e.isIrq
      · simp only [Bool.false_eq_true, if_false]
        omega
      · simp only [if_true]
        omega

/-- The assumptions on a run with traps: the installation on a fresh core
returned, every address is in memory, handlers leave the core alone and the
program leaves the trapped halfwords alone. -/
structure Instrumented [DecidableEq L] (P : Platform F H L S) (f : F) (oc oc' : OwnedCore F H L S)
    (traps : List (Word × H)) : Prop where
  fresh : oc.Fresh f
  installs : oc.setTraps P.bus traps = (.ok (), oc')
  resolved : ∀ p ∈ traps, ∃ l, P.bus.resolve p.1 = some l
  inert : ∀ p ∈ traps, P.Inert p.2
  fetchOnly : ∀ t, Lts.Reachable P.Step oc'.core t →
    FetchOnly P f (Trapped P.bus (traps.map Prod.fst)) t

/-- What has to hold before the installation: distinct halfwords, none of
them holding the breakpoint already, and none of them prefetched. -/
structure CleanStart (P : Platform F H L S) (oc : OwnedCore F H L S)
    (traps : List (Word × H)) : Prop where
  separate : Separate P.bus traps
  unplanted : ∀ p ∈ traps, ∀ l, P.bus.resolve p.1 = some l → oc.core.mem l ≠ trapperBkpt
  pipeline : oc.core.arm.executionMode = .Thumb →
    oc.core.nextThumb ∉ traps.map Prod.fst ∧ oc.core.arm.gpr ARM_PC ∉ traps.map Prod.fst

/-- What the two come to: the run starts guarded, with nothing pending. -/
theorem Instrumented.start [DecidableEq L] {P : Platform F H L S} {f : F}
    {oc oc' : OwnedCore F H L S} {traps : List (Word × H)}
    (h : Instrumented P f oc oc' traps) (start : CleanStart P oc traps) :
    ∃ table, Pristine P.bus traps oc.core.mem table oc'.core.mem ∧ Clean P.bus table ∧
      Guarded P f table oc'.core ∧ Unarmed table oc'.core := by
  obtain ⟨table, hinstalled⟩ := h.fresh.installed h.installs
  have hpristine := hinstalled.done.pristine_iff.mpr (start.separate.noCollision _)
  have hkeys := hpristine.mem_iff
  have hnext : oc'.core.nextThumb = oc.core.nextThumb := by
    rw [Core.nextThumb, ARMCore.gpr, hinstalled.gprs]
    rfl
  -- nothing was prefetched at a key
  have hfront : oc'.core.arm.executionMode = .Thumb → oc'.core.nextThumb ∉ table := by
    intro hmode hkey
    rw [hnext, hkeys] at hkey
    exact (start.pipeline (hinstalled.executionMode ▸ hmode)).1 hkey
  have hbehind : oc'.core.arm.executionMode = .Thumb → oc'.core.arm.gpr ARM_PC ∉ table := by
    intro hmode hkey
    rw [ARMCore.gpr, hinstalled.gprs, hkeys] at hkey
    exact (start.pipeline (hinstalled.executionMode ▸ hmode)).2 hkey
  refine ⟨table, hpristine, ⟨?_, ?_⟩, ⟨hinstalled.hooked, ?_, ?_, ?_⟩, ?_⟩
  · intro a ha
    obtain ⟨p, hp, rfl⟩ := List.mem_map.mp ((hkeys a).mp ha)
    exact h.resolved p hp
  · intro a trap htrap heq
    obtain ⟨p, hp, rfl, -, horiginal⟩ := hpristine.entry htrap
    obtain ⟨l, hl⟩ := h.resolved p hp
    apply start.unplanted p hp l hl
    rw [← horiginal l hl]
    exact zext_injective heq
  · intro l hl
    obtain ⟨a, ha, hal⟩ := hl
    obtain ⟨p, hp, rfl⟩ := List.mem_map.mp ((hkeys a).mp ha)
    exact hpristine.patched p hp l hal
  · intro hmode trap htrap
    exact absurd (AList.lookup_isSome.mp (by rw [htrap]; rfl)) (hfront hmode)
  · intro hmode hkey
    exact absurd hkey (hbehind hmode)
  · intro hmode hkey
    exact absurd hkey (hfront hmode)

/-- How far the calls of a handler are ahead of its instruction, after any
run: by the pending one, and by the strays. -/
theorem calls_eq [DecidableEq L] {P : Platform F H L S} {f : F} {oc oc' : OwnedCore F H L S}
    {traps : List (Word × H)} (h : Instrumented P f oc oc' traps)
    (start : CleanStart P oc traps) {es : List (Event F H)} {t : Core F H L S}
    (hrun : Lts.Run P.Step oc'.core es t) {p : Word × H} (hp : p ∈ traps) {l : L}
    (hl : P.bus.resolve p.1 = some l) :
    calls p.1 es = executions p.1 (oc.core.mem l) es + pending p.1 (oc.core.mem l) t +
      strays p.1 0 es := by
  obtain ⟨table, hpristine, hclean, hguarded, hunarmed⟩ := h.start start
  obtain ⟨trap, htrap, -, horiginal⟩ := hpristine.original p hp
  have hkeyed : ∀ l, Trapped P.bus table.keys l → Trapped P.bus (traps.map Prod.fst) l := by
    intro l hl
    obtain ⟨a, ha, hal⟩ := hl
    exact ⟨a, hpristine.keys.mem_iff.mp ha, hal⟩
  have hbooks := hguarded.ledger hclean (hpristine.forall_handler h.inert) hrun
    (fun x hx => (h.fetchOnly x hx).mono hkeyed) htrap
  rw [hunarmed.pending hclean htrap, horiginal l hl] at hbooks
  exact hbooks

/-- **One call for each execution**, in every state of a run, exactly when no
interrupt of the run comes right after a call. -/
theorem calls_balanced_iff [DecidableEq L] {P : Platform F H L S} {f : F}
    {oc oc' : OwnedCore F H L S} {traps : List (Word × H)} (h : Instrumented P f oc oc' traps)
    (start : CleanStart P oc traps) {es : List (Event F H)} {t : Core F H L S}
    (hrun : Lts.Run P.Step oc'.core es t) {p : Word × H} (hp : p ∈ traps) {l : L}
    (hl : P.bus.resolve p.1 = some l) :
    (∀ before after mid, es = before ++ after → Lts.Run P.Step oc'.core before mid →
        Balanced p.1 (oc.core.mem l) before mid) ↔
      Uninterrupted p.1 es := by
  have hstrays : ∀ es : List (Event F H), strays p.1 0 es = 0 ↔ Uninterrupted p.1 es := by
    intro es
    rw [strays_eq_zero_iff]
    simp
  constructor
  · intro hbalanced
    have hend := hbalanced es [] t (by simp) hrun
    have hlaw := calls_eq h start hrun hp hl
    rw [Balanced] at hend
    apply (hstrays es).mp
    omega
  · intro hcalm before after mid hsplit hbefore
    have hlaw := calls_eq h start hbefore hp hl
    rw [hsplit] at hcalm
    have hnone := (hstrays before).mpr hcalm.left_of_append
    rw [Balanced]
    omega

/-! ## An interrupt at the wrong moment -/

/-- The jumper with one trap, at the target of its jumps. -/
def jumperTrapped : OwnedCore Unit Unit (BitVec 24) Unit :=
  ((OwnedCore.boot () nops ()).setTraps Bus.cart [(0x08000000, ())]).2

theorem jumper_instrumented (b : Build) (target : Word) :
    Instrumented (Platform.jumper b target) () (OwnedCore.boot () nops ()) jumperTrapped
      [(0x08000000, ())] where
  fresh := OwnedCore.fresh_boot () nops ()
  installs := rfl
  resolved := by
    intro p hp
    rw [List.mem_singleton] at hp
    subst hp
    exact ⟨0, rfl⟩
  inert := fun _ _ _ => rfl
  fetchOnly := by
    intro t _
    refine ⟨?_, fun _ _ _ => rfl, fun _ _ => rfl⟩
    intro _ _ l _
    rw [Platform.operation]
    split
    · rfl
    · rfl

theorem jumper_clean (b : Build) (target : Word) :
    CleanStart (Platform.jumper b target) (OwnedCore.boot () nops ()) [(0x08000000, ())] where
  separate := separate_singleton _ _
  unplanted := by
    intro _ _ l _
    show nops l ≠ trapperBkpt
    rw [nops]
    decide
  pipeline := by
    intro hmode
    cases hmode

/-- Breakpoint, then displaced instruction: balanced throughout. -/
theorem calls_balanced_undisturbed :
    ∃ t, Lts.Run (Platform.jumper .debug 0x08000000).Step jumperTrapped.core
        [.arm,
          .thumb 0x08000000 0xbeef [.runFake 0x46c0, .handler 0x08000000 ()],
          .thumb 0x08000000 0x46c0 []] t ∧
      ∀ before after mid,
        [.arm, .thumb 0x08000000 0xbeef [.runFake 0x46c0, .handler 0x08000000 ()],
          .thumb 0x08000000 0x46c0 []] = before ++ after →
        Lts.Run (Platform.jumper .debug 0x08000000).Step jumperTrapped.core before mid →
        Balanced 0x08000000 0x46c0 before mid := by
  refine ⟨_, .cons ⟨.cpu, rfl⟩ (.cons ⟨.cpu, rfl⟩ (.single ⟨.cpu, rfl⟩)), ?_⟩
  have hiff := calls_balanced_iff (jumper_instrumented .debug 0x08000000)
    (jumper_clean .debug 0x08000000)
    (.cons ⟨.cpu, rfl⟩ (.cons ⟨.cpu, rfl⟩ (.single ⟨.cpu, rfl⟩)))
    (List.mem_singleton_self (0x08000000, ())) (l := 0) rfl
  apply hiff.mpr
  rw [Uninterrupted]
  decide

/-- An interrupt between the two: the instruction is fetched again when the
program resumes, and the handler is called a second time for one execution. -/
theorem calls_ahead_after_interrupt :
    Instrumented (Platform.jumper .debug 0x08000000) () (OwnedCore.boot () nops ())
        jumperTrapped [(0x08000000, ())] ∧
      CleanStart (Platform.jumper .debug 0x08000000) (OwnedCore.boot () nops ())
        [(0x08000000, ())] ∧
      ∃ es t, Lts.Run (Platform.jumper .debug 0x08000000).Step jumperTrapped.core es t ∧
        calls 0x08000000 es = 2 ∧ executions 0x08000000 0x46c0 es = 1 ∧
        pending 0x08000000 0x46c0 t = 0 ∧ ¬ Balanced 0x08000000 0x46c0 es t := by
  have hrun : ∃ t, Lts.Run (Platform.jumper .debug 0x08000000).Step jumperTrapped.core
      [.arm,
        .thumb 0x08000000 0xbeef [.runFake 0x46c0, .handler 0x08000000 ()],
        .irq (some 0x08000000),
        .arm,
        .thumb 0x08000000 0xbeef [.runFake 0x46c0, .handler 0x08000000 ()],
        .thumb 0x08000000 0x46c0 []] t ∧ pending 0x08000000 0x46c0 t = 0 :=
    ⟨_, .cons ⟨.cpu, rfl⟩ (.cons ⟨.cpu, rfl⟩ (.cons ⟨.irq, rfl⟩ (.cons ⟨.cpu, rfl⟩
      (.cons ⟨.cpu, rfl⟩ (.single ⟨.cpu, rfl⟩))))), rfl⟩
  obtain ⟨t, hrun, hpending⟩ := hrun
  refine ⟨jumper_instrumented _ _, jumper_clean _ _, _, t, hrun, rfl, rfl, hpending, ?_⟩
  rw [Balanced, hpending]
  decide

end MgbaRs
