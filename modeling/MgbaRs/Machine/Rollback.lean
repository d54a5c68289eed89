import MgbaRs.Lib.Checkpoint
import MgbaRs.Machine.Handlers

/-!
# Traps and save states

A frontend that rolls back saves the state of a core and loads it again later,
with the traps in place all the time: they are not part of a save state, the
breakpoints in the memories it holds and in its pipeline are.

mGBA's `saveState` and `loadState` are not in the repository: a `Serializer`
is any two such functions, and `Serializer.Lawful` what is assumed of them.
Whether loading puts the two halfwords of the pipeline back or fetches them
again may depend on what these are.

`traps_rolled_back`: the core with traps still answers like the attended one
when save states are made and loaded at any moment, also between a trap and
the instruction it stands for. Save states of other cores do as well if those
have traps at the same addresses (`Attends.saved_elsewhere`), or if they hold
no trapped halfword and have none in their pipeline
(`Serializer.Unaware.savedAlike`).
-/

namespace MgbaRs

variable {F H L S π : Type}

/-- What a save state says of the machine. -/
structure SaveState (L S : Type) where
  gprs : Fin 16 → Word
  cpsr : Word
  executionMode : ExecutionMode
  prefetch0 : Word
  prefetch1 : Word
  mem : L → Half
  rest : S

/-- What there is to say of a core. -/
def Core.serialized (core : Core F H L S) : SaveState L S where
  gprs := core.arm.gprs
  cpsr := core.arm.cpsr
  executionMode := core.arm.executionMode
  prefetch0 := core.arm.prefetch0
  prefetch1 := core.arm.prefetch1
  mem := core.mem
  rest := core.rest

/-- mGBA's `saveState` and `loadState` on save states of any type, what these
say, which halfwords they hold, and whether the pipeline is fetched again on
loading, by what is in it. A load that is refused changes nothing. -/
structure Serializer (F H L S π : Type) where
  save : Core F H L S → π
  load : π → Core F H L S → Option (Core F H L S)
  content : π → SaveState L S
  holds : L → Bool
  refetches : Word → Word → Bool

/-- The pipeline holds what is in memory where it was fetched. -/
def Core.Refetched (bus : Bus L) (core : Core F H L S) : Prop :=
  core.arm.prefetch0 = zext (bus.fetch core.mem core.nextThumb) ∧
    core.arm.prefetch1 = zext (bus.fetch core.mem (core.arm.gpr ARM_PC))

/-- The core `core'` is `core` with a save state put back that says `p`. The
breakpoint hook, the component table and the memories no save state holds
stay. -/
structure Restored (bus : Bus L) (Z : Serializer F H L S π) (p : SaveState L S)
    (core core' : Core F H L S) : Prop where
  gprs : core'.arm.gprs = p.gprs
  cpsr : core'.arm.cpsr = p.cpsr
  executionMode : core'.arm.executionMode = p.executionMode
  rest : core'.rest = p.rest
  mem : ∀ l, core'.mem l = if Z.holds l = true then p.mem l else core.mem l
  bkpt16 : core'.arm.bkpt16 = core.arm.bkpt16
  registered : core'.registered = core.registered
  refetched : p.executionMode = .Thumb → Z.refetches p.prefetch0 p.prefetch1 = true →
    core'.Refetched bus
  kept : p.executionMode = .Thumb → Z.refetches p.prefetch0 p.prefetch1 = false →
    core'.arm.prefetch0 = p.prefetch0 ∧ core'.arm.prefetch1 = p.prefetch1

/-- What is assumed of mGBA: a save state says what there is to say of the
core it was made of, loading it restores that, and whether it is accepted has
nothing to do with pipelines and memories. -/
structure Serializer.Lawful (Z : Serializer F H L S π) (bus : Bus L) : Prop where
  save : ∀ core, Z.content (Z.save core) = core.serialized
  load : ∀ p core core', Z.load p core = some core' → Restored bus Z (Z.content p) core core'
  accepts : ∀ p q core u, (Z.content p).gprs = (Z.content q).gprs →
    (Z.content p).cpsr = (Z.content q).cpsr → (Z.content p).rest = (Z.content q).rest →
    core.rest = u.rest → (Z.load p core).isSome = (Z.load q u).isSome

/-- `Core::save_state`. -/
def Core.saveState (Z : Serializer F H L S π) (core : Core F H L S) : π := Z.save core

/-- `Core::load_state`; the error is `CallFailed`. -/
def Core.loadState (Z : Serializer F H L S π) (p : π) (core : Core F H L S) :
    Except String (Core F H L S) :=
  match Z.load p core with
  | some core => .ok core
  | none => .error "mCore.loadState"

/-- The trapped machine and its save states. -/
def Platform.saving (P : Platform F H L S) (Z : Serializer F H L S π) :
    Checkpoint.Machine (Core F H L S) π Input (Event F H) Fault where
  step := P.step
  save := Core.saveState Z
  load p core := (core.loadState Z p).toOption

/-- The attended machine saves whether a handler has been called as well; what
is fetched again has no handler called for it. -/
def Attended.saving [DecidableEq L] (P : Platform F H L S) (act : H → View L S → Effect L S)
    (traps : List (Word × H)) (Z : Serializer F H L S π) :
    Checkpoint.Machine (Attended F H L S) (π × Bool) Input (Happening F H) Fault where
  step := Attended.step P act traps
  save s := (s.core.saveState Z, s.served)
  load p s := (s.core.loadState Z p.1).toOption.map fun core =>
    ⟨core, p.2 && !Z.refetches (Z.content p.1).prefetch0 (Z.content p.1).prefetch1⟩

/-! ## Save states of the two machines -/

/-- What a save state of the trapped core says and what one of the attended
core says have in common. -/
structure SavedAlike [DecidableEq L] (bus : Bus L) (Z : Serializer F H L S π)
    (I : Installation H L) (p : SaveState L S) (q : SaveState L S × Bool) : Prop where
  gprs : p.gprs = q.1.gprs
  cpsr : p.cpsr = q.1.cpsr
  executionMode : p.executionMode = q.1.executionMode
  rest : p.rest = q.1.rest
  mem : ∀ l, Z.holds l = true → p.mem l = stampAll bus q.1.mem I.addrs l
  pristine : ∀ l, Z.holds l = true → Trapped bus I.addrs l → q.1.mem l = I.mem₀ l
  slot0 : q.1.executionMode = .Thumb →
    Slot bus I (q.1.gprs ARM_PC - 2) p.prefetch0 q.1.prefetch0
  slot1 : q.1.executionMode = .Thumb → Slot bus I (q.1.gprs ARM_PC) p.prefetch1 q.1.prefetch1
  front : q.1.executionMode = .Thumb → q.2 = false →
    Shares bus I.addrs (q.1.gprs ARM_PC - 2) → p.prefetch0 = zext trapperBkpt
  same : q.1.executionMode = .Thumb → q.2 = true → p.prefetch0 = q.1.prefetch0
  behind : q.1.executionMode = .Thumb → Shares bus I.addrs (q.1.gprs ARM_PC) →
    p.prefetch1 = zext trapperBkpt

/-- A save state that knows nothing of the traps: none of the halfwords it
holds is trapped, and none in its pipeline. -/
structure Serializer.Unaware (Z : Serializer F H L S π) (bus : Bus L) (addrs : List Word)
    (p : SaveState L S) : Prop where
  memories : ∀ l, Trapped bus addrs l → Z.holds l = false
  pipeline : p.executionMode = .Thumb →
    ¬ Shares bus addrs (p.gprs ARM_PC - 2) ∧ ¬ Shares bus addrs (p.gprs ARM_PC)

variable [DecidableEq L]

/-- Such a save state is as good for the one machine as for the other. -/
theorem Serializer.Unaware.savedAlike {Z : Serializer F H L S π} {bus : Bus L}
    {I : Installation H L} {p : SaveState L S} (h : Z.Unaware bus I.addrs p) :
    SavedAlike bus Z I p (p, false) where
  gprs := rfl
  cpsr := rfl
  executionMode := rfl
  rest := rfl
  mem l hl := by
    rw [stampAll_miss]
    intro htrapped
    rw [h.memories l htrapped] at hl
    cases hl
  pristine l hl htrapped := by
    rw [h.memories l htrapped] at hl
    cases hl
  slot0 _ := .same _
  slot1 _ := .same _
  front hthumb _ hshares := absurd hshares (h.pipeline hthumb).1
  same _ hserved := by cases hserved
  behind hthumb hshares := absurd hshares (h.pipeline hthumb).2

omit [DecidableEq L] in
/-- Another installation at the same addresses, over the same halfwords. -/
theorem Slot.transfer {bus : Bus L} {I I' : Installation H L} {a x y : Word}
    (h : Slot bus I a x y) (haddrs : I'.addrs = I.addrs)
    (hmem : ∀ l, Trapped bus I.addrs l → I'.mem₀ l = I.mem₀ l) : Slot bus I' a x y := by
  cases h with
  | same => exact .same _
  | trapped l hl htrapped =>
      rw [← hmem l htrapped]
      exact .trapped l hl (haddrs ▸ htrapped)

theorem SavedAlike.transfer {bus : Bus L} {Z : Serializer F H L S π} {I I' : Installation H L}
    {p : SaveState L S} {q : SaveState L S × Bool} (h : SavedAlike bus Z I p q)
    (haddrs : I'.addrs = I.addrs) (hmem : ∀ l, Trapped bus I.addrs l → I'.mem₀ l = I.mem₀ l) :
    SavedAlike bus Z I' p q where
  gprs := h.gprs
  cpsr := h.cpsr
  executionMode := h.executionMode
  rest := h.rest
  mem := by
    rw [haddrs]
    exact h.mem
  pristine l hl htrapped := by
    rw [haddrs] at htrapped
    rw [h.pristine l hl htrapped, hmem l htrapped]
  slot0 hthumb := (h.slot0 hthumb).transfer haddrs hmem
  slot1 hthumb := (h.slot1 hthumb).transfer haddrs hmem
  front := by
    rw [haddrs]
    exact h.front
  same := h.same
  behind := by
    rw [haddrs]
    exact h.behind

section Saving

variable {P : Platform F H L S} {f : F} {I : Installation H L} {Z : Serializer F H L S π}
  {t t' : Core F H L S} {s : Attended F H L S} {u' : Core F H L S}

theorem Attends.saved (h : Attends P f I t s) :
    SavedAlike P.bus Z I t.serialized (s.core.serialized, s.served) where
  gprs := h.gprs
  cpsr := h.cpsr
  executionMode := h.executionMode
  rest := h.rest
  mem l _ := congrFun h.mem l
  pristine l _ := h.pristine l
  slot0 := h.slot0
  slot1 := h.slot1
  front := h.front
  same := h.same
  behind := h.behind

/-- A save state is as good for another core with traps at the same addresses
of the same code, whatever its handlers. -/
theorem Attends.saved_elsewhere {I' : Installation H L} (h : Attends P f I' t s)
    (haddrs : I.addrs = I'.addrs) (hmem : ∀ l, Trapped P.bus I'.addrs l → I.mem₀ l = I'.mem₀ l) :
    SavedAlike P.bus Z I t.serialized (s.core.serialized, s.served) :=
  h.saved.transfer haddrs hmem

/-- The memories, the traps' hook and the registers come out alike. -/
theorem Attends.restored_alike (h : Attends P f I t s) {p : SaveState L S}
    {q : SaveState L S × Bool} (hsaved : SavedAlike P.bus Z I p q)
    (ht : Restored P.bus Z p t t') (hu : Restored P.bus Z q.1 s.core u') :
    Alike P.bus I.addrs I.mem₀ t' u' where
  gprs := by rw [ht.gprs, hu.gprs, hsaved.gprs]
  cpsr := by rw [ht.cpsr, hu.cpsr, hsaved.cpsr]
  executionMode := by rw [ht.executionMode, hu.executionMode, hsaved.executionMode]
  rest := by rw [ht.rest, hu.rest, hsaved.rest]
  mem := by
    funext l
    rw [ht.mem l]
    by_cases hl : Trapped P.bus I.addrs l
    · rw [stampAll_hit hl]
      split
      · rename_i hholds
        rw [hsaved.mem l hholds, stampAll_hit hl]
      · exact h.planted l hl
    · rw [stampAll_miss hl, hu.mem l]
      split
      · rename_i hholds
        rw [hsaved.mem l hholds, stampAll_miss hl]
      · rw [h.mem, stampAll_miss hl]
  pristine l hl := by
    rw [hu.mem l]
    split
    · rename_i hholds
      exact hsaved.pristine l hholds hl
    · exact h.pristine l hl

/-- Loading tells no breakpoint from the halfword it replaced. -/
def Serializer.Blind (Z : Serializer F H L S π) (bus : Bus L) (I : Installation H L) : Prop :=
  ∀ a b x x' y y', Slot bus I a x y → Slot bus I b x' y' → Z.refetches x x' = Z.refetches y y'

/-- Put back, they leave the machines as alike as they were when saved, unless
the pipeline is fetched again: then no handler has been called. -/
theorem Attends.restored (h : Attends P f I t s) (hblind : Z.Blind P.bus I) {p : SaveState L S}
    {q : SaveState L S × Bool} (hsaved : SavedAlike P.bus Z I p q)
    (ht : Restored P.bus Z p t t') (hu : Restored P.bus Z q.1 s.core u') :
    Attends P f I t' ⟨u', q.2 && !Z.refetches q.1.prefetch0 q.1.prefetch1⟩ := by
  have halike := h.restored_alike hsaved ht hu
  have hooked : t'.Hooked { realBkpt16 := some (.native f), traps := I.table } :=
    ⟨ht.bkpt16.trans h.hooked.hook, ht.registered.trans h.hooked.registered⟩
  have hnative : u'.arm.bkpt16 = some (.native f) := hu.bkpt16.trans h.native
  have hpc : u'.arm.gpr ARM_PC = q.1.gprs ARM_PC := congrFun hu.gprs ARM_PC
  have hnext : u'.nextThumb = q.1.gprs ARM_PC - 2 := by rw [Core.nextThumb, hpc]
  have hplanted : ∀ l, Trapped P.bus I.addrs l → t'.mem l = trapperBkpt := by
    intro l hl
    rw [halike.mem, stampAll_hit hl]
  cases hmode : q.1.executionMode with
  | ARM =>
      -- no Thumb pipeline to speak of
      have harm : u'.arm.executionMode ≠ .Thumb := by
        rw [hu.executionMode, hmode]
        exact ExecutionMode.noConfusion
      exact
        { toAlike := halike, hooked, native := hnative
          slot0 := fun hthumb => absurd hthumb harm, slot1 := fun hthumb => absurd hthumb harm
          front := fun hthumb => absurd hthumb harm, same := fun hthumb => absurd hthumb harm
          behind := fun hthumb => absurd hthumb harm }
  | Thumb =>
      have hslots := hblind _ _ _ _ _ _ (hsaved.slot0 hmode) (hsaved.slot1 hmode)
      have hmode' := hsaved.executionMode.trans hmode
      cases hrefetch : Z.refetches q.1.prefetch0 q.1.prefetch1 with
      | true =>
          obtain ⟨hfront, hbehind⟩ := ht.refetched hmode' (hslots.trans hrefetch)
          obtain ⟨hfront', hbehind'⟩ := hu.refetched hmode hrefetch
          rw [halike.nextThumb] at hfront
          rw [show t'.arm.gpr ARM_PC = u'.arm.gpr ARM_PC from congrFun halike.gprs ARM_PC]
            at hbehind
          refine
            { toAlike := halike, hooked, native := hnative, slot0 := ?_, slot1 := ?_
              front := ?_, same := ?_, behind := ?_ }
          · intro _
            rw [hfront, hfront', halike.mem]
            exact Slot.fetch halike.pristine _
          · intro _
            rw [hbehind, hbehind', halike.mem]
            exact Slot.fetch halike.pristine _
          · intro _ _ hshares
            rw [hfront]
            exact hshares.fetch hplanted
          · intro _ hserved
            simp at hserved
          · intro _ hshares
            rw [hbehind]
            exact hshares.fetch hplanted
      | false =>
          obtain ⟨hfront, hbehind⟩ := ht.kept hmode' (hslots.trans hrefetch)
          obtain ⟨hfront', hbehind'⟩ := hu.kept hmode hrefetch
          refine
            { toAlike := halike, hooked, native := hnative, slot0 := ?_, slot1 := ?_
              front := ?_, same := ?_, behind := ?_ }
          · intro _
            rw [hnext, hfront, hfront']
            exact hsaved.slot0 hmode
          · intro _
            rw [hpc, hbehind, hbehind']
            exact hsaved.slot1 hmode
          · intro _ hserved hshares
            rw [hnext] at hshares
            rw [hfront]
            exact hsaved.front hmode (by simpa using hserved) hshares
          · intro _ hserved
            rw [hfront, hfront']
            exact hsaved.same hmode (by simpa using hserved)
          · intro _ hshares
            rw [hpc] at hshares
            rw [hbehind]
            exact hsaved.behind hmode hshares

/-- Both are accepted, or neither is. -/
theorem Attends.loads (h : Attends P f I t s) (hlawful : Z.Lawful P.bus)
    (hblind : Z.Blind P.bus I) {p : π} {q : π × Bool}
    (hsaved : SavedAlike P.bus Z I (Z.content p) (Z.content q.1, q.2))
    {act : H → View L S → Effect L S} {traps : List (Word × H)} :
    Option.Rel (Attends P f I) ((P.saving Z).load p t)
      ((Attended.saving P act traps Z).load q s) := by
  have haccepts := hlawful.accepts p q.1 t s.core hsaved.gprs hsaved.cpsr hsaved.rest h.rest
  simp only [Platform.saving, Attended.saving, Core.loadState]
  cases ht : Z.load p t with
  | none =>
      cases hu : Z.load q.1 s.core with
      | none => exact .none
      | some u' =>
          rw [ht, hu] at haccepts
          cases haccepts
  | some t' =>
      cases hu : Z.load q.1 s.core with
      | none =>
          rw [ht, hu] at haccepts
          cases haccepts
      | some u' =>
          exact .some (h.restored hblind hsaved (hlawful.load _ _ _ ht) (hlawful.load _ _ _ hu))

end Saving

omit [DecidableEq L] in
/-- If it is for a zero in the pipeline that loading fetches it again, no
trapped halfword may have been zero. -/
theorem Serializer.blind_of_zero {Z : Serializer F H L S π} {bus : Bus L} {I : Installation H L}
    (hzero : ∀ x y, Z.refetches x y = (x == 0 || y == 0))
    (hmem : ∀ l, Trapped bus I.addrs l → I.mem₀ l ≠ 0) : Z.Blind bus I := by
  have hslot : ∀ a x y, Slot bus I a x y → (x == 0) = (y == 0) := by
    intro a x y h
    cases h with
    | same => rfl
    | trapped l _ htrapped =>
        have hne : zext (I.mem₀ l) ≠ zext 0 := by
          intro heq
          exact hmem l htrapped (zext_injective heq)
        rw [show (zext (I.mem₀ l) == 0) = false from beq_eq_false_iff_ne.mpr hne]
        rfl
  intro a b x x' y y' h h'
  rw [hzero, hzero, hslot a x y h, hslot b x' y' h']

/-! ## From an installation on -/

/-- What is assumed of an installation, its handlers, mGBA's save states,
those there are before it and a program: as without save states (`Staffed`),
wherever the attended machine gets by steps, saving and loading. -/
structure RolledBack {κ : Type} [DecidableEq κ] (P : Platform F H L S) (f : F)
    (act : H → View L S → Effect L S) (Z : Serializer F H L S π) (oc : OwnedCore F H L S)
    (traps : List (Word × H)) (slots : κ → Option π) (slots' : κ → Option (π × Bool)) :
    Prop where
  fresh : oc.Fresh f
  distinct : (traps.map Prod.fst).Nodup
  separate : Separate P.bus traps
  pipeline : oc.core.arm.executionMode = .Thumb →
    ¬ Shares P.bus (traps.map Prod.fst) oc.core.nextThumb ∧
      ¬ Shares P.bus (traps.map Prod.fst) (oc.core.arm.gpr ARM_PC)
  acts : ∀ p ∈ traps, ActsAs P.bus (P.call p.2) (act p.2)
  lawful : Z.Lawful P.bus
  blind : ∀ table, Z.Blind P.bus ⟨traps.map Prod.fst, oc.core.mem, table⟩
  saved : ∀ table k, Option.Rel
    (fun p q => SavedAlike P.bus Z
      (⟨traps.map Prod.fst, oc.core.mem, table⟩ : Installation H L) (Z.content p)
      (Z.content q.1, q.2))
    (slots k) (slots' k)
  program : ∀ m, Lts.Reachable (Lts.Answers (Attended.saving P act traps Z).checkpoint)
    ⟨⟨oc.core, false⟩, slots'⟩ m → m.current.Minds P act traps f

/-- The registers of a save state put back, over this pipeline. -/
def Core.put (bus : Bus L) (core : Core F H L S) (p : SaveState L S) (prefetch0 prefetch1 : Word) :
    Core F H L S :=
  { core with
    arm := { core.arm.enterRegion bus (p.gprs ARM_PC) with
      gprs := p.gprs, cpsr := p.cpsr, executionMode := p.executionMode, prefetch0, prefetch1 }
    rest := p.rest }

/-- The save states of a core that runs from the cartridge, which is in none
of them: a zero in the pipeline makes loading fetch it again, and nothing is
refused. -/
def Serializer.cart : Serializer F H (BitVec 24) S (SaveState (BitVec 24) S) where
  save := Core.serialized
  load p core :=
    if (p.prefetch0 == 0 || p.prefetch1 == 0) = true then
      some (core.put Bus.cart p (zext (Bus.cart.fetch core.mem (p.gprs ARM_PC - 2)))
        (zext (Bus.cart.fetch core.mem (p.gprs ARM_PC))))
    else some (core.put Bus.cart p p.prefetch0 p.prefetch1)
  content p := p
  holds _ := false
  refetches x y := x == 0 || y == 0

theorem Serializer.cart_lawful :
    (Serializer.cart : Serializer F H (BitVec 24) S _).Lawful Bus.cart where
  save _ := rfl
  load p core core' h := by
    simp only [Serializer.cart] at h
    split at h
    · rename_i hzero
      cases h
      exact ⟨rfl, rfl, rfl, rfl, fun _ => rfl, rfl, rfl, fun _ _ => ⟨rfl, rfl⟩,
        fun _ hkept => absurd hzero (Bool.eq_false_iff.mp hkept)⟩
    · rename_i hzero
      cases h
      exact ⟨rfl, rfl, rfl, rfl, fun _ => rfl, rfl, rfl, fun _ hagain => absurd hagain hzero,
        fun _ _ => ⟨rfl, rfl⟩⟩
  accepts p q core u _ _ _ _ := by
    simp only [Serializer.cart]
    split <;> split <;> rfl

/-- A core that idles still does with a save state of such a core. -/
theorem idling_load {act : Unit → View (BitVec 24) Unit → Effect (BitVec 24) Unit}
    {traps : List (Word × Unit)} {P : Platform Unit Unit (BitVec 24) Unit}
    {q : SaveState (BitVec 24) Unit × Bool} {s s' : Attended Unit Unit (BitVec 24) Unit}
    (hs : Idling s.core)
    (hq : q.1.executionMode = .Thumb → q.1.prefetch0 = zext 0x46c0 ∧
      Bus.cart.fetch nops (q.1.gprs ARM_PC - 2) = 0x46c0)
    (hload : (Attended.saving P act traps .cart).load q s = some s') : Idling s'.core := by
  simp only [Attended.saving, Core.loadState, Serializer.cart] at hload
  split at hload
  · rename_i core hcore
    cases hload
    split at hcore
    · -- fetched again
      cases hcore
      refine ⟨⟨hs.mem, ?_, hs.native⟩, fun hthumb => (hq hthumb).2⟩
      intro hthumb
      show zext (Bus.cart.fetch s.core.mem (q.1.gprs ARM_PC - 2)) = _
      rw [hs.mem, (hq hthumb).2]
    · cases hcore
      exact ⟨⟨hs.mem, fun hthumb => (hq hthumb).1, hs.native⟩, fun hthumb => (hq hthumb).2⟩
  · cases hload

end MgbaRs
