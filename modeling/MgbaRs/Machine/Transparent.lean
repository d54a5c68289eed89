import MgbaRs.Machine.Shadow
import MgbaRs.Trapper.Chain

/-!
# Installed traps are transparent

Erase the trap events from a run of the trapped core and a run of the same
core without traps is left (`Transparent.sound`); conversely every run
without traps is what is left of some run with them (`Transparent.complete`),
provided that the trapped halfwords it executes were fetched at their listed
addresses and not at the very top of the address space (`Covered`). Anywhere
else the breakpoint aborts: `step_error_iff` says which states those are.

The simulation is `Shadow`. A trap is a stutter; after it both cores hold the
same halfword in front and take the next step together, whether or not an
interrupt comes in between.
-/

namespace MgbaRs

variable {F H L S : Type}

/-! ## What is seen of a run -/

/-- An event without the trap events: those that execute the trapper's own
breakpoint. -/
def Event.visible : Event F H → List (Event F H)
  | .thumb addr op calls => if op = zext trapperBkpt then [] else [.thumb addr op calls]
  | .arm => [.arm]
  | .irq saved => [.irq saved]

theorem Event.visible_trap (addr : Word) (calls : List (HookCall F H)) :
    (Event.thumb addr (zext trapperBkpt) calls).visible = [] := by
  rw [Event.visible, if_pos rfl]

/-- An instruction executed from a trapped halfword is executed at one of the
listed addresses, below the last two halfwords if arithmetic is checked. -/
def Covered (P : Platform F H L S) (addrs : List Word) : Event F H → Prop
  | .thumb addr _ _ => (∃ l, P.bus.resolve addr = some l ∧ Trapped P.bus addrs l) →
      addr ∈ addrs ∧ (P.build.overflowChecks = true → addr.toNat + 4 < 2 ^ 32)
  | .arm => True
  | .irq _ => True

namespace Platform

variable {P : Platform F H L S}

/-- The states in which a core with traps can abort: a breakpoint of the
trapper's comes next, and it was not fetched where its trap is listed. -/
theorem step_error_iff {f : F} {table : Traps H} {core : Core F H L S}
    (hooked : core.Hooked { realBkpt16 := some (.native f), traps := table }) :
    (∃ i fault, P.step core i = .error fault) ↔
      core.arm.executionMode = .Thumb ∧ core.arm.prefetch0 = zext trapperBkpt ∧
        ¬ (core.nextThumb ∈ table ∧
          (P.build.overflowChecks = true → core.nextThumb.toNat + 4 < 2 ^ 32)) := by
  constructor
  · intro h
    obtain ⟨i, fault, hstep⟩ := h
    cases i with
    | irq => cases hstep
    | cpu =>
        cases hmode : core.arm.executionMode with
        | ARM =>
            rw [step_arm hmode] at hstep
            cases hstep
        | Thumb =>
            rw [step_thumb hmode] at hstep
            refine ⟨rfl, ?_, ?_⟩
            · by_contra hop
              rw [thumbStep_operation (.hooked table hooked hop)] at hstep
              cases hstep
            · intro hat
              obtain ⟨trap, htrap⟩ := Option.isSome_iff_exists.mp (AList.lookup_isSome.mpr hat.1)
              by_cases hop : core.arm.prefetch0 = zext trapperBkpt
              · rw [thumbStep_trap hooked hop htrap hat.2] at hstep
                cases hstep
              · rw [thumbStep_operation (.hooked table hooked hop)] at hstep
                cases hstep
  · intro h
    obtain ⟨hmode, hop, hlost⟩ := h
    obtain ⟨fault, hfault⟩ := thumbStep_lost (P := P) hooked hop hlost
    exact ⟨.cpu, fault, by rw [step_thumb hmode, hfault]⟩

end Platform

/-! ## The square -/

variable [DecidableEq L]

section Square

variable {P : Platform F H L S} {f : F} {I : Installation H L} {t u : Core F H L S}

/-- A step both cores take together: any step, except that the next
instruction must be the same if it is Thumb. -/
theorem Shadow.lockstep (h : Shadow P f I t u)
    (hb : Behaves P f (Trapped P.bus I.addrs) u) (i : Input)
    (hsame : i = .cpu → u.arm.executionMode = .Thumb → t.arm.prefetch0 = u.arm.prefetch0) :
    ∃ e t' u', P.step t i = .ok (e, t') ∧ P.step u i = .ok (e, u') ∧
      e.visible = [e] ∧ Shadow P f I t' u' := by
  cases i with
  | irq =>
      have hsaved : Platform.saved t = Platform.saved u := by
        simp only [Platform.saved, h.executionMode, h.nextThumb]
      refine ⟨_, _, _, rfl, by rw [Platform.step, hsaved], rfl, ?_⟩
      exact h.operate (hb.irq.redirect .arm)
  | cpu =>
      cases hmode : u.arm.executionMode with
      | ARM =>
          refine ⟨_, _, _, Platform.step_arm (h.executionMode.trans hmode),
            Platform.step_arm hmode, rfl, ?_⟩
          exact h.operate (hb.arm hmode)
      | Thumb =>
          -- the same halfword, and no breakpoint of the trapper's
          obtain ⟨hown, hop⟩ := hb.thumb hmode
          have hfront := hsame rfl hmode
          have ht : Platform.Routes f t t.arm.prefetch0 :=
            .hooked I.table h.hooked (by rw [hfront]; exact hown)
          have hstep := Platform.thumbStep_operation (P := P) ht
          rw [hfront, h.nextThumb] at hstep
          refine ⟨_, _, _, (Platform.step_thumb (h.executionMode.trans hmode)).trans hstep,
            (Platform.step_thumb hmode).trans (Platform.thumbStep_operation (.direct h.native)),
            ?_, ?_⟩
          · exact if_neg hown
          · exact (h.shift hmode).operate hop

/-- A breakpoint that finds its trap: the trapped core alone takes a step, and
then has the same halfword in front. -/
theorem Shadow.trap (h : Shadow P f I t u) (faithful : I.Faithful P.bus)
    (inert : ∀ a trap, I.table.lookup a = some trap → P.Inert trap.handler)
    (hthumb : u.arm.executionMode = .Thumb) (hdiff : t.arm.prefetch0 ≠ u.arm.prefetch0)
    (hlisted : u.nextThumb ∈ I.table)
    (hrange : P.build.overflowChecks = true → u.nextThumb.toNat + 4 < 2 ^ 32) :
    ∃ e, P.step t .cpu = .ok (e, t.rearm u.arm.prefetch0) ∧ e.visible = [] := by
  rcases (h.slot0 hthumb).cases with heq | ⟨hbkpt, l, hl, -, horiginal⟩
  · exact absurd heq hdiff
  · obtain ⟨trap, htrap⟩ := Option.isSome_iff_exists.mp (AList.lookup_isSome.mpr hlisted)
    have hstep := Platform.thumbStep_trap (P := P) h.hooked hbkpt
      (by rw [h.nextThumb]; exact htrap) (by rw [h.nextThumb]; exact hrange)
    rw [inert _ trap htrap, faithful.original _ trap htrap l hl, ← horiginal] at hstep
    exact ⟨_, (Platform.step_thumb (h.executionMode.trans hthumb)).trans hstep,
      Event.visible_trap _ _⟩

/-- Every step of the trapped core is one of the other, or invisible. -/
theorem Shadow.forward (h : Shadow P f I t u) (faithful : I.Faithful P.bus)
    (inert : ∀ a trap, I.table.lookup a = some trap → P.Inert trap.handler)
    (hb : Behaves P f (Trapped P.bus I.addrs) u) {e : Event F H} {t' : Core F H L S}
    (hstep : P.Step t e t') :
    ∃ u', Lts.Run P.Step u e.visible u' ∧ Shadow P f I t' u' := by
  obtain ⟨i, hi⟩ := hstep
  by_cases hsame : i = .cpu → u.arm.executionMode = .Thumb → t.arm.prefetch0 = u.arm.prefetch0
  · obtain ⟨e', t'', u', ht, hu, hvisible, hR⟩ := h.lockstep hb i hsame
    rw [ht] at hi
    cases hi
    rw [hvisible]
    exact ⟨u', .single ⟨i, hu⟩, hR⟩
  · simp only [Classical.not_imp] at hsame
    obtain ⟨rfl, hthumb, hdiff⟩ := hsame
    -- the slot in front holds a breakpoint
    have hbkpt : t.arm.prefetch0 = zext trapperBkpt :=
      ((h.slot0 hthumb).cases.resolve_left hdiff).1
    by_cases hlisted : t.nextThumb ∈ I.table ∧
        (P.build.overflowChecks = true → t.nextThumb.toNat + 4 < 2 ^ 32)
    · rw [h.nextThumb] at hlisted
      obtain ⟨e', ht, hvisible⟩ := h.trap faithful inert hthumb hdiff hlisted.1 hlisted.2
      rw [ht] at hi
      cases hi
      rw [hvisible]
      exact ⟨u, .nil u, h.rearm⟩
    · obtain ⟨fault, hfault⟩ := Platform.thumbStep_lost (P := P) h.hooked hbkpt hlisted
      rw [Platform.step_thumb (h.executionMode.trans hthumb), hfault] at hi
      cases hi

/-- Every covered step of the other core is one of the trapped core, after a
trap or at once. -/
theorem Shadow.backward (h : Shadow P f I t u) (faithful : I.Faithful P.bus)
    (inert : ∀ a trap, I.table.lookup a = some trap → P.Inert trap.handler)
    (hb : Behaves P f (Trapped P.bus I.addrs) u) {e : Event F H} {u' : Core F H L S}
    (hstep : P.Step u e u') (hcovered : Covered P I.addrs e) :
    ∃ es t', Lts.Run P.Step t es t' ∧ es.flatMap Event.visible = [e] ∧
      Shadow P f I t' u' := by
  obtain ⟨i, hi⟩ := hstep
  by_cases hsame : i = .cpu → u.arm.executionMode = .Thumb → t.arm.prefetch0 = u.arm.prefetch0
  · obtain ⟨e', t', u'', ht, hu, hvisible, hR⟩ := h.lockstep hb i hsame
    rw [hu] at hi
    cases hi
    refine ⟨[e], t', .single ⟨i, ht⟩, ?_, hR⟩
    rw [List.flatMap_singleton, hvisible]
  · simp only [Classical.not_imp] at hsame
    obtain ⟨rfl, hthumb, hdiff⟩ := hsame
    -- the other core executes the original at the address of the breakpoint
    obtain ⟨-, l, hl, htrapped, -⟩ := (h.slot0 hthumb).cases.resolve_left hdiff
    have haddr : ∃ calls, e = .thumb u.nextThumb u.arm.prefetch0 calls := by
      rw [Platform.step_thumb hthumb, Platform.thumbStep_operation (.direct h.native)] at hi
      cases hi
      exact ⟨_, rfl⟩
    obtain ⟨calls, rfl⟩ := haddr
    obtain ⟨hlisted, hrange⟩ := hcovered ⟨l, hl, htrapped⟩
    obtain ⟨e₁, ht₁, hvisible₁⟩ :=
      h.trap faithful inert hthumb hdiff ((faithful.keys _).mpr hlisted) hrange
    -- from here the two go together
    obtain ⟨e₂, t₂, u₂, ht₂, hu₂, hvisible₂, hR⟩ :=
      h.rearm.lockstep hb .cpu (fun _ _ => rfl)
    rw [hu₂] at hi
    cases hi
    refine ⟨[e₁, _], t₂, .cons ⟨.cpu, ht₁⟩ (.single ⟨.cpu, ht₂⟩), ?_, hR⟩
    rw [List.flatMap_cons, List.flatMap_singleton, hvisible₁, hvisible₂]
    rfl

end Square

/-! ## Whole runs -/

/-- What an installation and a program are assumed to be: distinct addresses
for distinct halfwords, handlers that leave the core alone, and a program
that, run without traps, executes no breakpoint of the trapper's and touches
the trapped halfwords by fetching them only. -/
structure Setup (P : Platform F H L S) (f : F) (oc : OwnedCore F H L S)
    (traps : List (Word × H)) : Prop where
  fresh : oc.Fresh f
  distinct : (traps.map Prod.fst).Nodup
  separate : Separate P.bus traps
  inert : ∀ p ∈ traps, P.Inert p.2
  program : ∀ u, Lts.Reachable P.Step oc.core u →
    Behaves P f (Trapped P.bus (traps.map Prod.fst)) u

/-- The core `t₀` with traps at `addrs` runs like `u₀` without them. The
second half is claimed of the runs whose events all satisfy `C`. -/
structure Transparent (P : Platform F H L S) (addrs : List Word) (u₀ t₀ : Core F H L S)
    (C : Event F H → Prop) : Prop where
  sound : ∀ es t, Lts.Run P.Step t₀ es t →
    ∃ u, Lts.Run P.Step u₀ (es.flatMap Event.visible) u ∧ Alike P.bus addrs u₀.mem t u
  complete : ∀ es u, Lts.Run P.Step u₀ es u → (∀ e ∈ es, C e) →
    ∃ es' t, Lts.Run P.Step t₀ es' t ∧ es'.flatMap Event.visible = es ∧
      Alike P.bus addrs u₀.mem t u

/-- What `set_traps` makes of a fresh core shadows it. -/
theorem Setup.installs {P : Platform F H L S} {f : F} {oc : OwnedCore F H L S}
    {traps : List (Word × H)} (setup : Setup P f oc traps) :
    ∃ oc' table, oc.setTraps P.bus traps = (.ok (), oc') ∧
      let I : Installation H L := ⟨traps.map Prod.fst, oc.core.mem, table⟩
      Shadow P f I oc'.core oc.core ∧ I.Faithful P.bus ∧
        ∀ a trap, table.lookup a = some trap → P.Inert trap.handler := by
  obtain ⟨oc', hset, -⟩ :=
    OwnedCore.setTraps_installs P.bus setup.fresh.trapper setup.distinct
  obtain ⟨table, h⟩ := setup.fresh.installed hset
  have hpristine := h.done.pristine_iff.mpr (setup.separate.noCollision _)
  refine ⟨oc', table, hset, ?_, ⟨hpristine.mem_iff, ?_⟩, hpristine.forall_handler setup.inert⟩
  · exact
      { gprs := h.gprs
        cpsr := h.cpsr
        executionMode := h.executionMode
        rest := h.rest
        mem := h.done.memory
        pristine := fun _ _ => rfl
        -- fetched before the patches
        slot0 := fun _ => by
          rw [h.prefetch0]
          exact .same _
        slot1 := fun _ => by
          rw [h.prefetch1]
          exact .same _
        hooked := h.hooked
        native := setup.fresh.hook }
  · intro a trap htrap l hl
    obtain ⟨-, -, -, -, horiginal⟩ := hpristine.entry htrap
    exact horiginal l hl

/-- **Installed traps are transparent** over every run, as long as trapped
halfwords are executed at their listed addresses; and a trapped core aborts
nowhere but at a breakpoint for which that fails. -/
theorem traps_transparent {P : Platform F H L S} {f : F} {oc : OwnedCore F H L S}
    {traps : List (Word × H)} (setup : Setup P f oc traps) :
    ∃ oc', oc.setTraps P.bus traps = (.ok (), oc') ∧
      Transparent P (traps.map Prod.fst) oc.core oc'.core
        (Covered P (traps.map Prod.fst)) ∧
      ∀ es t, Lts.Run P.Step oc'.core es t →
        ((∃ i fault, P.step t i = .error fault) ↔
          t.arm.executionMode = .Thumb ∧ t.arm.prefetch0 = zext trapperBkpt ∧
            ¬ (t.nextThumb ∈ traps.map Prod.fst ∧
              (P.build.overflowChecks = true → t.nextThumb.toNat + 4 < 2 ^ 32))) := by
  obtain ⟨oc', table, hset, hshadow, hfaithful, hinert⟩ := setup.installs
  have hforward : ∀ es t, Lts.Run P.Step oc'.core es t →
      ∃ u, Lts.Run P.Step oc.core (es.flatMap Event.visible) u ∧
        Shadow P f ⟨traps.map Prod.fst, oc.core.mem, table⟩ t u := by
    intro es t hrun
    refine hrun.simulate ?_ hshadow (Lts.Reachable.refl oc.core)
    intro s u e s' hR hreach hstep
    exact hR.forward hfaithful hinert (setup.program u hreach) hstep
  refine ⟨oc', hset, ⟨?_, ?_⟩, ?_⟩
  · intro es t hrun
    obtain ⟨u, hu, hR⟩ := hforward es t hrun
    exact ⟨u, hu, hR.toAlike⟩
  · intro es u hrun hcovered
    have hlift : ∃ es' t, Lts.Run P.Step oc'.core es' t ∧ es'.flatMap Event.visible = es ∧
        Shadow P f ⟨traps.map Prod.fst, oc.core.mem, table⟩ t u := by
      refine (hrun.restrict hcovered).lift ?_ hshadow (Lts.Reachable.refl oc.core)
      intro s v e v' hR hreach hstep
      obtain ⟨es, hes⟩ := hreach
      have hv : Lts.Reachable P.Step oc.core v := ⟨es, hes.mono (fun _ _ _ h => h.1)⟩
      exact hR.backward hfaithful hinert (setup.program v hv) hstep.1 hstep.2
    obtain ⟨es', t, ht, hvisible, hR⟩ := hlift
    exact ⟨es', t, ht, hvisible, hR.toAlike⟩
  · intro es t hrun
    obtain ⟨u, -, hR⟩ := hforward es t hrun
    rw [Platform.step_error_iff hR.hooked, hfaithful.keys]

/-! ## A program that jumps through a mirror -/

theorem untouched_jump (T : BitVec 24 → Prop) (next : Next) (v : View (BitVec 24) Unit) :
    Untouched T (fun v => ⟨v.gprs, v.cpsr, v.mem, v.rest, next⟩) v := by
  intro mem hmem
  exact ⟨mem, rfl, fun _ _ => rfl, hmem⟩

/-- The jumper only ever has that instruction in front. -/
structure Nopping (u : Core Unit Unit (BitVec 24) Unit) : Prop where
  mem : u.mem = nops
  front : u.arm.executionMode = .Thumb → u.arm.prefetch0 = zext 0x46c0
  native : u.arm.bkpt16 = some (.native ())

theorem jumper_nopping {b : Build} {target : Word}
    (htarget : Bus.cart.fetch nops (target &&& -2) = 0x46c0)
    {u : Core Unit Unit (BitVec 24) Unit}
    (hreach : Lts.Reachable (Platform.jumper b target).Step (OwnedCore.boot () nops ()).core u) :
    Nopping u := by
  obtain ⟨es, hrun⟩ := hreach
  have hboot : Nopping (OwnedCore.boot () nops ()).core := by
    refine ⟨rfl, ?_, rfl⟩
    intro h
    cases h
  refine hrun.invariant ?_ hboot
  intro s e t hs hstep
  obtain ⟨hmem, hfront, hnative⟩ := hs
  obtain ⟨i, hi⟩ := hstep
  have hfetch : zext (Bus.cart.fetch s.mem (target &&& -2)) = zext 0x46c0 := by
    rw [hmem, htarget]
  cases i with
  | irq =>
      cases hi
      refine ⟨hmem, ?_, hnative⟩
      intro h
      cases h
  | cpu =>
      cases hmode : s.arm.executionMode with
      | ARM =>
          rw [Platform.step_arm hmode] at hi
          cases hi
          exact ⟨hmem, fun _ => hfetch, hnative⟩
      | Thumb =>
          rw [Platform.step_thumb hmode, Platform.thumbStep_operation (.direct hnative),
            hfront hmode] at hi
          cases hi
          exact ⟨hmem, fun _ => hfetch, hnative⟩

theorem jumper_setup (b : Build) (target : Word)
    (htarget : Bus.cart.fetch nops (target &&& -2) = 0x46c0) :
    Setup (Platform.jumper b target) () (OwnedCore.boot () nops ()) [(0x08000000, ())] where
  fresh := OwnedCore.fresh_boot () nops ()
  distinct := by decide
  separate := separate_singleton _ _
  inert := fun _ _ _ => rfl
  program := by
    intro u hreach
    obtain ⟨-, hfront, -⟩ := jumper_nopping htarget hreach
    refine ⟨?_, fun _ => untouched_jump _ _ _, untouched_jump _ _ _⟩
    intro hmode
    rw [hfront hmode]
    exact ⟨by decide, untouched_jump _ _ _⟩

/-- A trap at the target of every jump: transparent. -/
theorem traps_transparent_jumper :
    ∃ oc', (OwnedCore.boot () nops ()).setTraps Bus.cart [(0x08000000, ())] = (.ok (), oc') ∧
      Transparent (Platform.jumper .debug 0x08000000) [0x08000000]
        (OwnedCore.boot () nops ()).core oc'.core
        (Covered (Platform.jumper .debug 0x08000000) [0x08000000]) := by
  obtain ⟨oc', hset, htransparent, -⟩ :=
    traps_transparent (jumper_setup .debug 0x08000000 rfl)
  exact ⟨oc', hset, htransparent⟩

/-- The same trap when the jumps go to a mirror of its address: the core
without traps executes the instruction there, the one with traps aborts. -/
theorem traps_opaque_at_mirror :
    Setup (Platform.jumper .release 0x0a000000) () (OwnedCore.boot () nops ())
        [(0x08000000, ())] ∧
      ∃ oc', (OwnedCore.boot () nops ()).setTraps Bus.cart [(0x08000000, ())] = (.ok (), oc') ∧
        ¬ Transparent (Platform.jumper .release 0x0a000000) [0x08000000]
          (OwnedCore.boot () nops ()).core oc'.core (fun _ => True) := by
  refine ⟨jumper_setup .release 0x0a000000 rfl, _, rfl, ?_⟩
  intro h
  obtain ⟨es, t, hrun, hvisible, -⟩ := h.complete
    [.arm, .thumb 0x0a000000 (zext 0x46c0) []] _
    (.cons ⟨.cpu, rfl⟩ (.single ⟨.cpu, rfl⟩)) (fun _ _ => trivial)
  cases hrun with
  | nil => cases hvisible
  | cons hfirst hrest =>
      obtain ⟨i, hi⟩ := hfirst
      cases i with
      | irq =>
          cases hi
          cases hvisible
      | cpu =>
          cases hi
          cases hrest with
          | nil => cases hvisible
          | cons hsecond _ =>
              obtain ⟨i, hi⟩ := hsecond
              cases i with
              | irq =>
                  cases hi
                  cases hvisible
              | cpu =>
                  -- the breakpoint is looked up under the mirror address
                  cases hi

end MgbaRs
