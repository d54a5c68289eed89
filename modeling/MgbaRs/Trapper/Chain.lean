import MgbaRs.Lib.Lts
import MgbaRs.Trapper.Install

/-!
# Sequences of `set_traps` calls

A caller may catch the panic of one `set_traps` call and call again. The
guard in `set_traps` looks at the `trapper` field only, and a panic inside
`Trapper::new` leaves that field unset after the hook and the slot have been
replaced. So everything hangs on the first call:

* if its list is free of duplicates it installs, and every later call is
  turned away by the guard with nothing touched;
* otherwise the failed call has already changed the core, and the next call
  stores the hook itself as the handler to chain to.

`traps_contract_iff` is this dichotomy over runs of calls.
-/

namespace MgbaRs

variable {F H L S : Type}

namespace OwnedCore

/-- A core no trap was ever installed on, with mGBA's own handler `f` in the
breakpoint hook. -/
structure Fresh (f : F) (oc : OwnedCore F H L S) : Prop where
  trapper : oc.trapper = none
  hook : oc.core.arm.bkpt16 = some (.native f)
  slot : oc.core.registered = none

/-- A core with nothing installed. -/
def boot (f : F) (mem : L → Half) (rest : S) : OwnedCore F H L S :=
  { core := Core.boot f mem rest, trapper := none }

theorem fresh_boot (f : F) (mem : L → Half) (rest : S) :
    Fresh f (boot f mem rest : OwnedCore F H L S) := ⟨rfl, rfl, rfl⟩

section Calls

variable [DecidableEq L]

/-- One `set_traps` call, panicking or not; the unwind is caught. -/
def Step (bus : Bus L) (oc : OwnedCore F H L S) (traps : List (Word × H))
    (oc' : OwnedCore F H L S) : Prop :=
  (oc.setTraps bus traps).2 = oc'

/-! ## The three outcomes of a call -/

/-- The guard: a core with traps turns the call away and keeps its state. -/
theorem setTraps_installed {bus : Bus L} {oc : OwnedCore F H L S} {box : Nat}
    (h : oc.trapper = some box) (traps : List (Word × H)) :
    oc.setTraps bus traps = (.error (.panic "traps are already installed on this core"), oc) := by
  simp only [setTraps, h]

/-- Distinct addresses on a core without traps: the call installs. -/
theorem setTraps_installs (bus : Bus L) {oc : OwnedCore F H L S} (h : oc.trapper = none)
    {traps : List (Word × H)} (hnodup : (traps.map Prod.fst).Nodup) :
    ∃ oc', oc.setTraps bus traps = (.ok (), oc') ∧ oc'.trapper = some oc.core.next := by
  obtain ⟨core', hnew⟩ := Trapper.new_completes bus oc.core hnodup
  refine ⟨{ core := core', trapper := some oc.core.next }, ?_, rfl⟩
  simp only [setTraps, h, hnew]

/-- A repeated address on a core without traps: the call panics, and leaves
the hook replaced. -/
theorem setTraps_panics (bus : Bus L) {oc : OwnedCore F H L S} (h : oc.trapper = none)
    {traps : List (Word × H)} (hdup : ¬ (traps.map Prod.fst).Nodup) :
    ∃ fault oc', oc.setTraps bus traps = (.error fault, oc') ∧
      oc'.core.arm.bkpt16 = some .cTrapperBkpt16 := by
  obtain ⟨fault, core', hnew, hhook⟩ := Trapper.new_panics bus oc.core hdup
  refine ⟨fault, { oc with core := core' }, ?_, hhook⟩
  simp only [setTraps, h, hnew]

/-- The only way for a call to succeed. -/
theorem setTraps_ok {bus : Bus L} {oc oc' : OwnedCore F H L S} {traps : List (Word × H)}
    (h : oc.setTraps bus traps = (.ok (), oc')) :
    ∃ box, Trapper.new bus oc.core traps = (.ok box, oc'.core) := by
  cases htrapper : oc.trapper with
  | some box =>
      rw [setTraps_installed htrapper] at h
      cases h
  | none =>
      cases hnew : Trapper.new bus oc.core traps with
      | mk result core =>
          cases result with
          | error fault =>
              simp only [setTraps, htrapper, hnew] at h
              cases h
          | ok box =>
              simp only [setTraps, htrapper, hnew] at h
              cases h
              exact ⟨box, rfl⟩

/-- An installation on a fresh core: hook and table are in place, the list is
patched into memory, and nothing else a program could see has changed. -/
structure Installed (bus : Bus L) (f : F) (oc oc' : OwnedCore F H L S)
    (traps : List (Word × H)) (table : Traps H) : Prop where
  hooked : oc'.core.Hooked { realBkpt16 := some (.native f), traps := table }
  done : LoopDone bus traps ∅ oc.core.mem table oc'.core.mem
  gprs : oc'.core.arm.gprs = oc.core.arm.gprs
  cpsr : oc'.core.arm.cpsr = oc.core.arm.cpsr
  executionMode : oc'.core.arm.executionMode = oc.core.arm.executionMode
  prefetch0 : oc'.core.arm.prefetch0 = oc.core.arm.prefetch0
  prefetch1 : oc'.core.arm.prefetch1 = oc.core.arm.prefetch1
  rest : oc'.core.rest = oc.core.rest

theorem Fresh.installed {bus : Bus L} {f : F} {oc oc' : OwnedCore F H L S} (hfresh : Fresh f oc)
    {traps : List (Word × H)} (h : oc.setTraps bus traps = (.ok (), oc')) :
    ∃ table, Installed bus f oc oc' traps table := by
  obtain ⟨box, hnew⟩ := setTraps_ok h
  obtain ⟨table, hreg, hdone⟩ := Trapper.registered_new hnew
  obtain ⟨_, -, hcore⟩ := Trapper.new_ok hnew
  rw [hfresh.hook] at hreg
  have harm : oc'.core.arm = oc.core.hook.arm := by
    rw [hcore]
  have hrest : oc'.core.rest = oc.core.rest := by
    rw [hcore]
    rfl
  have hhook : oc'.core.arm.bkpt16 = some .cTrapperBkpt16 := by
    rw [harm]
    rfl
  exact ⟨table, ⟨hhook, hreg⟩, hdone, by rw [harm]; rfl, by rw [harm]; rfl, by rw [harm]; rfl,
    by rw [harm]; rfl, by rw [harm]; rfl, hrest⟩

end Calls

end OwnedCore

/-! ## The chain of handlers -/

/-- Calling the handler `g` with `imm` reaches `f` after finitely many calls. -/
inductive Reaches (b : Build) (core : Core F H L S) (imm : Word) (f : F) : Bkpt16 F → Prop
  | here : Reaches b core imm f (.native f)
  | forward {g : Bkpt16 F} : cTrapperBkpt16 b core imm = .ok [.real g imm] →
      Reaches b core imm f g → Reaches b core imm f .cTrapperBkpt16

namespace OwnedCore

/-- Foreign breakpoints get through to `f`, and the registered trapper, if
there is one, has stored `f`. -/
structure Forwards (b : Build) (f : F) (oc : OwnedCore F H L S) : Prop where
  stored : ∀ trapper, oc.core.registered = some trapper →
    trapper.realBkpt16 = some (.native f)
  reaches : ∀ imm, imm ≠ TRAPPER_IMM →
    ∃ g, oc.core.arm.bkpt16 = some g ∧ Reaches b oc.core imm f g

theorem Fresh.forwards {f : F} {oc : OwnedCore F H L S} (h : Fresh f oc) (b : Build) :
    Forwards b f oc where
  stored trapper hreg := by
    rw [h.slot] at hreg
    cases hreg
  reaches _ _ := ⟨_, h.hook, .here⟩

variable [DecidableEq L]

/-- An installation on a fresh core forwards in one call. -/
theorem Installed.forwards {bus : Bus L} {f : F} {oc oc' : OwnedCore F H L S}
    {traps : List (Word × H)} {table : Traps H} (h : Installed bus f oc oc' traps table)
    (b : Build) : Forwards b f oc' := by
  constructor
  · intro trapper htrapper
    rw [h.hooked.registered] at htrapper
    cases htrapper
    rfl
  · intro imm himm
    refine ⟨_, h.hooked.hook, .forward ?_ .here⟩
    exact cTrapperBkpt16_foreign b h.hooked.registered himm

/-! ## Runs of calls -/

/-- What a panicking call must leave as it was. -/
structure Unchanged (oc oc' : OwnedCore F H L S) : Prop where
  mem : oc'.core.mem = oc.core.mem
  hook : oc'.core.arm.bkpt16 = oc.core.arm.bkpt16
  slot : oc'.core.arm.misc1 = oc.core.arm.misc1
  trapper : oc'.trapper = oc.trapper

/-- The law of a run of calls: every panicking call changes nothing, and
every state on the way forwards to the original handler. -/
structure TrapsContract (b : Build) (bus : Bus L) (f : F) (oc₀ : OwnedCore F H L S)
    (calls : List (List (Word × H))) : Prop where
  atomic : ∀ before traps after oc fault oc', calls = before ++ traps :: after →
    Lts.Run (Step bus) oc₀ before oc → oc.setTraps bus traps = (.error fault, oc') →
      Unchanged oc oc'
  forwards : ∀ before after oc, calls = before ++ after →
    Lts.Run (Step bus) oc₀ before oc → Forwards b f oc

/-- Once traps are installed, no run of calls leaves the state. -/
theorem run_installed {bus : Bus L} {oc oc' : OwnedCore F H L S} {box : Nat}
    (h : oc.trapper = some box) {calls : List (List (Word × H))}
    (hrun : Lts.Run (Step bus) oc calls oc') : oc' = oc := by
  apply hrun.invariant (P := (· = oc))
  · intro s traps t hs hstep
    subst hs
    rw [Step, setTraps_installed h] at hstep
    exact hstep.symm
  · rfl

/-- No call, nothing to answer for. -/
theorem Fresh.contract_nil {bus : Bus L} {f : F} {oc₀ : OwnedCore F H L S}
    (hfresh : Fresh f oc₀) (b : Build) : TrapsContract b bus f oc₀ [] := by
  constructor
  · intro before traps after oc fault oc' hsplit
    simp at hsplit
  · intro before after oc hsplit hrun
    obtain ⟨rfl, -⟩ := List.append_eq_nil_iff.mp hsplit.symm
    cases hrun
    exact hfresh.forwards b

/-- A first list without duplicates installs; the guard takes care of every
later call. -/
theorem Fresh.contract_cons {bus : Bus L} {f : F} {oc₀ : OwnedCore F H L S}
    (hfresh : Fresh f oc₀) (b : Build) {first : List (Word × H)}
    (hnodup : (first.map Prod.fst).Nodup) (rest : List (List (Word × H))) :
    TrapsContract b bus f oc₀ (first :: rest) := by
  obtain ⟨oc₁, hcall, htrapper⟩ := setTraps_installs bus hfresh.trapper hnodup
  obtain ⟨table, hinstalled⟩ := hfresh.installed hcall
  have hfirst : ∀ oc, Step bus oc₀ first oc → oc = oc₁ := by
    intro oc hstep
    rw [Step, hcall] at hstep
    exact hstep.symm
  constructor
  · intro before traps after oc fault oc' hsplit hrun hfault
    cases hrun with
    | nil =>
        -- the first call does not panic
        cases hsplit
        rw [hcall] at hfault
        cases hfault
    | cons hstep hrun =>
        -- every later one is turned away
        cases hsplit
        cases hfirst _ hstep
        cases run_installed htrapper hrun
        rw [setTraps_installed htrapper] at hfault
        cases hfault
        exact ⟨rfl, rfl, rfl, rfl⟩
  · intro before after oc hsplit hrun
    cases hrun with
    | nil => exact hfresh.forwards b
    | cons hstep hrun =>
        cases hsplit
        cases hfirst _ hstep
        cases run_installed htrapper hrun
        exact hinstalled.forwards b

/-- A first list with a duplicate panics after the hook was replaced. -/
theorem TrapsContract.nodup {b : Build} {bus : Bus L} {f : F} {oc₀ : OwnedCore F H L S}
    {first : List (Word × H)} {rest : List (List (Word × H))}
    (h : TrapsContract b bus f oc₀ (first :: rest)) (hfresh : Fresh f oc₀) :
    (first.map Prod.fst).Nodup := by
  by_contra hdup
  obtain ⟨fault, oc', hcall, hhook⟩ := setTraps_panics bus hfresh.trapper hdup
  have hsame := h.atomic [] first rest oc₀ fault oc' rfl (.nil _) hcall
  have hkept := hsame.hook
  rw [hhook, hfresh.hook] at hkept
  cases hkept

/-- **Failed installations and the handler chain.** From a fresh core a
sequence of calls keeps the law exactly when the first list repeats no
address. -/
theorem traps_contract_iff (b : Build) (bus : Bus L) {f : F} {oc₀ : OwnedCore F H L S}
    (hfresh : Fresh f oc₀) (calls : List (List (Word × H))) :
    TrapsContract b bus f oc₀ calls ↔
      ∀ traps ∈ calls.head?, (traps.map Prod.fst).Nodup := by
  cases calls with
  | nil =>
      constructor
      · intro _ traps htraps
        cases htraps
      · intro _
        exact hfresh.contract_nil b
  | cons first rest =>
      constructor
      · intro h traps htraps
        cases htraps
        exact h.nodup hfresh
      · intro h
        exact hfresh.contract_cons b (h first rfl) rest

/-- One good call and one that the guard turns away. -/
theorem traps_contract_guarded :
    TrapsContract .debug Bus.cart () (boot () (fun _ => 0x46c0) ())
      [[(0x08000000, ()), (0x08000002, ())], [(0x08000004, ())]] := by
  rw [traps_contract_iff .debug Bus.cart (fresh_boot () _ ())]
  intro traps htraps
  cases htraps
  decide

/-- A list with a repeated address, its panic caught, then an empty list: the
registered trapper chains to the hook itself. -/
theorem traps_chain_into_themselves :
    ∃ oc, Lts.Run (Step Bus.cart) (boot () (fun _ => 0x46c0) ())
        [[(0x08000000, ()), (0x08000000, ())], []] oc ∧
      (∃ trapper, oc.core.registered = some trapper ∧
        trapper.realBkpt16 = some .cTrapperBkpt16) ∧
      ¬ TrapsContract .debug Bus.cart () (boot () (fun _ => 0x46c0) ())
        [[(0x08000000, ()), (0x08000000, ())], []] := by
  have hrun : ∃ oc, Lts.Run (Step Bus.cart) (boot () (fun _ => 0x46c0) ())
        [[(0x08000000, ()), (0x08000000, ())], []] oc ∧
      ∃ trapper, oc.core.registered = some trapper ∧
        trapper.realBkpt16 = some .cTrapperBkpt16 :=
    ⟨_, .cons rfl (.cons rfl (.nil _)), _, rfl, rfl⟩
  obtain ⟨oc, hrun, trapper, hreg, hreal⟩ := hrun
  refine ⟨oc, hrun, ⟨trapper, hreg, hreal⟩, ?_⟩
  intro hlaw
  have hstored := (hlaw.forwards _ [] oc (by simp) hrun).stored trapper hreg
  rw [hreal] at hstored
  cases hstored

end OwnedCore

end MgbaRs
