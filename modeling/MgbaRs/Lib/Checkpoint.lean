import MgbaRs.Lib.Lts
import Mathlib.Logic.Function.Basic
import Mathlib.Data.Option.Basic

/-!
# Machines with checkpoints

Any machine that answers calls or faults, and two calls more: `save` puts what
the machine can be restored from into a slot, `load` restores it, or is
refused.

Two such machines that answer alike still do with checkpoints, if what they
save is related and what is related loads alike (`matches_step`). An invariant
of the machine is one of the machine with checkpoints if what is saved under
it restores it (`invariant`).
-/

namespace Checkpoint

variable {σ τ κ π ρ α β γ φ : Type*}

inductive Call (κ α : Type*) where
  | call (a : α)
  | save (k : κ)
  | load (k : κ)
deriving DecidableEq, Repr

inductive Answer (β : Type*) where
  | did (b : β)
  | saved
  | loaded
  | refused
  /-- There is nothing in the slot. -/
  | vacant
deriving DecidableEq, Repr

def Answer.map (g : β → γ) : Answer β → Answer γ
  | .did b => .did (g b)
  | .saved => .saved
  | .loaded => .loaded
  | .refused => .refused
  | .vacant => .vacant

/-- A machine in the state `current`, and what has been saved. -/
structure State (σ κ π : Type*) where
  current : σ
  slots : κ → Option π

/-- A machine that can be saved and restored. -/
structure Machine (σ π α β φ : Type*) where
  step : σ → α → Except φ (β × σ)
  save : σ → π
  load : π → σ → Option σ

/-- What loading a slot comes to. -/
def Machine.restore (M : Machine σ π α β φ) (s : State σ κ π) (k : κ) :
    Answer β × State σ κ π :=
  match s.slots k with
  | none => (.vacant, s)
  | some p =>
      match M.load p s.current with
      | none => (.refused, s)
      | some current => (.loaded, { s with current })

/-- A slot that is loaded replaces the state, and nothing else. -/
theorem Machine.restore_cases (M : Machine σ π α β φ) (s : State σ κ π) (k : κ) :
    (M.restore s k).2 = s ∨ ∃ p current, s.slots k = some p ∧ M.load p s.current = some current ∧
      (M.restore s k).2 = { s with current } := by
  unfold Machine.restore
  cases hslot : s.slots k with
  | none => exact .inl rfl
  | some p =>
      simp only
      cases hload : M.load p s.current with
      | none => exact .inl rfl
      | some current => exact .inr ⟨p, current, rfl, hload, rfl⟩

def Machine.checkpoint [DecidableEq κ] (M : Machine σ π α β φ) (s : State σ κ π) :
    Call κ α → Except φ (Answer β × State σ κ π)
  | .call a => (M.step s.current a).map fun (b, current) => (.did b, { s with current })
  | .save k => .ok (.saved, { s with slots := Function.update s.slots k (some (M.save s.current)) })
  | .load k => .ok (M.restore s k)

/-- The states are related, and so is what the slots hold. -/
structure Both (R : σ → τ → Prop) (Q : π → ρ → Prop) (s : State σ κ π) (t : State τ κ ρ) :
    Prop where
  current : R s.current t.current
  slots : ∀ k, Option.Rel Q (s.slots k) (t.slots k)

section Matching

variable {M : Machine σ π α β φ} {N : Machine τ ρ α γ φ} {R : σ → τ → Prop} {Q : π → ρ → Prop}
  {g : β → γ}

/-- Loading related slots. -/
theorem matches_restore {s : State σ κ π} {t : State τ κ ρ} (h : Both R Q s t)
    (loads : ∀ p q, Q p q → Option.Rel R (M.load p s.current) (N.load q t.current)) (k : κ) :
    (N.restore t k).1 = (M.restore s k).1.map g ∧
      Both R Q (M.restore s k).2 (N.restore t k).2 := by
  have hslot := h.slots k
  unfold Machine.restore
  generalize s.slots k = x at hslot ⊢
  generalize t.slots k = y at hslot ⊢
  cases hslot with
  | none => exact ⟨rfl, h⟩
  | some hQ =>
      have hload := loads _ _ hQ
      simp only
      generalize M.load _ s.current = x at hload ⊢
      generalize N.load _ t.current = y at hload ⊢
      cases hload with
      | none => exact ⟨rfl, h⟩
      | some hR => exact ⟨rfl, ⟨hR, h.slots⟩⟩

/-- Machines that answer alike do so with checkpoints. -/
theorem matches_step [DecidableEq κ] {s : State σ κ π} {t : State τ κ ρ} (h : Both R Q s t)
    (steps : ∀ a, Lts.Matches g R (M.step s.current a) (N.step t.current a))
    (saves : Q (M.save s.current) (N.save t.current))
    (loads : ∀ p q, Q p q → Option.Rel R (M.load p s.current) (N.load q t.current))
    (c : Call κ α) :
    Lts.Matches (Answer.map g) (Both R Q) (M.checkpoint s c) (N.checkpoint t c) := by
  cases c with
  | call a =>
      rcases steps a with ⟨f, hs, ht⟩ | ⟨b, s', t', hs, ht, hR⟩
      · refine .inl ⟨f, ?_, ?_⟩
        · rw [Machine.checkpoint, hs]
          rfl
        · rw [Machine.checkpoint, ht]
          rfl
      · refine .inr ⟨.did b, { s with current := s' }, { t with current := t' }, ?_, ?_,
          ⟨hR, h.slots⟩⟩
        · rw [Machine.checkpoint, hs]
          rfl
        · rw [Machine.checkpoint, ht]
          rfl
  | save k =>
      refine .inr ⟨.saved, _, _, rfl, rfl, h.current, ?_⟩
      intro k'
      simp only [Function.update_apply]
      split
      · exact .some saves
      · exact h.slots k'
  | load k =>
      obtain ⟨hanswer, hboth⟩ := matches_restore (g := g) h loads k
      refine .inr ⟨(M.restore s k).1, _, _, rfl, ?_, hboth⟩
      rw [Machine.checkpoint, ← hanswer]

end Matching

/-- What every step keeps, and what is saved restores, holds of every state
reached. -/
theorem invariant [DecidableEq κ] {M : Machine σ π α β φ} {P : σ → Prop} {Q : π → Prop}
    (steps : ∀ s a b s', P s → M.step s a = .ok (b, s') → P s')
    (saves : ∀ s, P s → Q (M.save s))
    (loads : ∀ p s s', P s → Q p → M.load p s = some s' → P s')
    {s₀ s : State σ κ π} (hcurrent : P s₀.current) (hslots : ∀ k p, s₀.slots k = some p → Q p)
    (hreach : Lts.Reachable (Lts.Answers M.checkpoint) s₀ s) : P s.current := by
  obtain ⟨es, hrun⟩ := hreach
  have hboth : P s.current ∧ ∀ k p, s.slots k = some p → Q p := by
    refine hrun.invariant (P := fun s => P s.current ∧ ∀ k p, s.slots k = some p → Q p) ?_
      ⟨hcurrent, hslots⟩
    rintro s e s' ⟨hP, hQ⟩ ⟨c, hc⟩
    cases c with
    | call a =>
        rw [Machine.checkpoint] at hc
        cases hstep : M.step s.current a with
        | error f =>
            rw [hstep] at hc
            cases hc
        | ok r =>
            rw [hstep] at hc
            cases hc
            exact ⟨steps _ a r.1 r.2 hP hstep, hQ⟩
    | save k =>
        cases hc
        refine ⟨hP, ?_⟩
        intro k' p hp
        simp only [Function.update_apply] at hp
        split at hp
        · cases hp
          exact saves _ hP
        · exact hQ k' p hp
    | load k =>
        have hrestore : (M.restore s k).2 = s' := congrArg Prod.snd (Except.ok.inj hc)
        subst hrestore
        rcases M.restore_cases s k with hsame | ⟨p, current, hslot, hload, hloaded⟩
        · rw [hsame]
          exact ⟨hP, hQ⟩
        · rw [hloaded]
          exact ⟨loads p _ _ hP (hQ k p hslot) hload, hQ⟩
  exact hboth.1

end Checkpoint
