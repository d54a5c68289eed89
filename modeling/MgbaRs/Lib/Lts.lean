import Mathlib.Data.List.Basic

/-!
# Labelled runs

Finite runs of a labelled transition relation, and the rules every
development over such runs needs:

* **invariants** — what one step preserves, a run preserves
  (`Run.invariant`), also when it is about a value the labels update
  (`Run.foldl`), and when only some labels preserve it (`Run.restrict`);
* **histories** — what a step may do can depend on the labels before it
  (`Run.iff_of_history`);
* **simulation** — a relation closed under concrete steps, each answered by
  the abstract labels it projects to (possibly none), lifts to runs
  (`Run.simulate`);
* **call sequences** — a machine that answers each call or faults
  (`exec`) agrees with a total reference machine on every legal sequence
  (`exec_refines`), and with one that may fault itself on every sequence, if
  single steps match (`exec_matches`); when single calls only match where some
  condition holds, sequences stay in step exactly as long as it does
  (`inStep_iff`), and likewise for not faulting (`exec_ok_iff`).
-/

namespace Lts

variable {σ τ ε δ : Type*}

/-- A finite run, with its labels in the order in which the steps are taken. -/
inductive Run (step : σ → ε → σ → Prop) : σ → List ε → σ → Prop
  | nil (s : σ) : Run step s [] s
  | cons {s t u : σ} {e : ε} {es : List ε} :
      step s e t → Run step t es u → Run step s (e :: es) u

/-- A state some run leads to. -/
def Reachable (step : σ → ε → σ → Prop) (s t : σ) : Prop := ∃ es, Run step s es t

section Runs

variable {step : σ → ε → σ → Prop} {s t u : σ}

theorem Run.single {e : ε} (h : step s e t) : Run step s [e] t := .cons h (.nil t)

theorem Run.append {es fs : List ε} (h : Run step s es t) (h' : Run step t fs u) :
    Run step s (es ++ fs) u := by
  induction h with
  | nil s => exact h'
  | cons hstep _ ih => exact .cons hstep (ih h')

theorem Reachable.refl (s : σ) : Reachable step s s := ⟨[], .nil s⟩

theorem Reachable.run {es : List ε} (h : Reachable step s t) (h' : Run step t es u) :
    Reachable step s u := by
  obtain ⟨fs, hfs⟩ := h
  exact ⟨fs ++ es, hfs.append h'⟩

/-- What every step preserves holds at the end of every run. -/
theorem Run.invariant {P : σ → Prop} {es : List ε}
    (preserved : ∀ s e t, P s → step s e t → P t)
    (h : Run step s es t) (hs : P s) : P t := by
  induction h with
  | nil s => exact hs
  | cons hstep _ ih => exact ih (preserved _ _ _ hs hstep)

/-- An invariant about a value that every label updates. -/
theorem Run.foldl {α : Type*} {P : α → σ → Prop} {f : α → ε → α} {es : List ε}
    (preserved : ∀ a s e t, P a s → step s e t → P (f a e) t)
    (h : Run step s es t) {a : α} (hs : P a s) : P (es.foldl f a) t := by
  induction h generalizing a with
  | nil s => exact hs
  | cons hstep _ ih => exact ih (preserved _ _ _ _ hs hstep)

/-- Two step relations that agree run alike. -/
theorem Run.mono {step' : σ → ε → σ → Prop} {es : List ε}
    (weaker : ∀ s e t, step s e t → step' s e t) (h : Run step s es t) :
    Run step' s es t := by
  induction h with
  | nil s => exact .nil s
  | cons hstep _ ih => exact .cons (weaker _ _ _ hstep) ih

/-- Steps of one relation that are steps of another as long as an invariant
holds, which they keep. -/
theorem Run.mono_of_invariant {step' : σ → ε → σ → Prop} {I : σ → Prop} {es : List ε}
    (weaker : ∀ s e t, I s → step s e t → step' s e t ∧ I t) (h : Run step s es t) (hs : I s) :
    Run step' s es t := by
  induction h with
  | nil s => exact .nil s
  | cons hstep _ ih =>
      obtain ⟨hstep', hI⟩ := weaker _ _ _ hs hstep
      exact .cons hstep' (ih hI)

/-- Two step relations that agree wherever an invariant of the second holds
have the same runs from there. -/
theorem Run.iff_of_invariant {step' : σ → ε → σ → Prop} {I : σ → Prop} {es : List ε}
    (agree : ∀ s e t, I s → (step s e t ↔ step' s e t))
    (preserved : ∀ s e t, I s → step' s e t → I t) (hs : I s) :
    Run step s es t ↔ Run step' s es t := by
  constructor
  · intro h
    refine h.mono_of_invariant ?_ hs
    intro s e t hI hstep
    have hstep' := (agree s e t hI).mp hstep
    exact ⟨hstep', preserved s e t hI hstep'⟩
  · intro h
    refine h.mono_of_invariant ?_ hs
    intro s e t hI hstep
    exact ⟨(agree s e t hI).mpr hstep, preserved s e t hI hstep⟩

/-- A run whose labels all satisfy `C` is a run of the steps that do. -/
theorem Run.restrict {C : ε → Prop} {es : List ε} (h : Run step s es t) (hC : ∀ e ∈ es, C e) :
    Run (fun s e t => step s e t ∧ C e) s es t := by
  induction h with
  | nil s => exact .nil s
  | cons hstep _ ih =>
      exact .cons ⟨hstep, hC _ List.mem_cons_self⟩
        (ih fun e he => hC e (List.mem_cons_of_mem _ he))

end Runs

/-! ## Histories

What a step may do can depend on the labels before it, not only on the
state. -/

section Histories

variable {α : Type*}

/-- The last value that `f` finds in a history. -/
def lastOf (f : ε → Option α) (hist : List ε) : Option α := (hist.filterMap f).getLast?

theorem lastOf_concat (f : ε → Option α) (hist : List ε) (e : ε) :
    lastOf f (hist ++ [e]) = (f e).or (lastOf f hist) := by
  unfold lastOf
  cases hf : f e with
  | none => simp [hf]
  | some a => simp [hf]

/-- Nothing was found after the last value. -/
theorem lastOf_eq_some_iff {f : ε → Option α} {hist : List ε} {a : α} :
    lastOf f hist = some a ↔
      ∃ pre e mid, hist = pre ++ e :: mid ∧ f e = some a ∧ ∀ x ∈ mid, f x = none := by
  constructor
  · intro h
    obtain ⟨found, hfound⟩ := List.getLast?_eq_some_iff.mp h
    obtain ⟨pre, rest, rfl, -, hrest⟩ := List.filterMap_eq_append_iff.mp hfound
    obtain ⟨skipped, e, mid, rfl, -, hf, hmid⟩ := List.filterMap_eq_cons_iff.mp hrest
    refine ⟨pre ++ skipped, e, mid, (List.append_assoc pre skipped _).symm, hf, ?_⟩
    exact List.filterMap_eq_nil_iff.mp hmid
  · rintro ⟨pre, e, mid, rfl, hf, hmid⟩
    unfold lastOf
    rw [List.filterMap_append, List.filterMap_cons_some hf, List.filterMap_eq_nil_iff.mpr hmid,
      List.getLast?_concat]

/-- Steps of one relation that are those of another the history allows: a run
of them is one of the other whose every label was allowed when it came. -/
theorem Run.iff_of_history {step step' : σ → ε → σ → Prop} {I : List ε → σ → Prop}
    {allows : List ε → ε → Prop}
    (agree : ∀ hist s e t, I hist s → (step s e t ↔ step' s e t ∧ allows hist e))
    (preserved : ∀ hist s e t, I hist s → step' s e t → I (hist ++ [e]) t)
    {hist es : List ε} {s t : σ} (hs : I hist s) :
    Run step s es t ↔
      Run step' s es t ∧ ∀ pre e post, es = pre ++ e :: post → allows (hist ++ pre) e := by
  induction es generalizing hist s with
  | nil =>
      constructor
      · intro h
        cases h
        refine ⟨.nil _, ?_⟩
        intro pre e post h
        simp at h
      · rintro ⟨h, -⟩
        cases h
        exact .nil _
  | cons e es ih =>
      constructor
      · intro h
        cases h with
        | cons hstep hrest =>
            obtain ⟨hstep', hallows⟩ := (agree hist s e _ hs).mp hstep
            obtain ⟨hrest', hlater⟩ := (ih (preserved hist s e _ hs hstep')).mp hrest
            refine ⟨.cons hstep' hrest', ?_⟩
            intro pre e' post h
            cases pre with
            | nil =>
                cases h
                rwa [List.append_nil]
            | cons first pre =>
                cases h
                have := hlater pre e' post rfl
                rwa [List.append_assoc] at this
      · rintro ⟨h, hall⟩
        cases h with
        | cons hstep' hrest' =>
            have hallows := hall [] e es rfl
            rw [List.append_nil] at hallows
            refine .cons ((agree hist s e _ hs).mpr ⟨hstep', hallows⟩) ?_
            refine (ih (preserved hist s e _ hs hstep')).mpr ⟨hrest', ?_⟩
            intro pre e' post h
            have := hall (e :: pre) e' post (by rw [h]; rfl)
            rwa [List.append_assoc]

end Histories

/-! ## Simulation with hidden steps

`project e` lists the abstract labels that explain the concrete label `e`;
a step with an empty projection is a stutter. -/

section Simulation

variable {stepC : σ → ε → σ → Prop} {stepA : τ → δ → τ → Prop}
variable {project : ε → List δ} {R : σ → τ → Prop}

/-- Forward simulation lifts to runs. The square may use that the abstract
state is reachable from where the abstract machine started. -/
theorem Run.simulate {t₀ : τ}
    (square : ∀ s t e s', R s t → Reachable stepA t₀ t → stepC s e s' →
      ∃ t', Run stepA t (project e) t' ∧ R s' t')
    {s s' : σ} {t : τ} {es : List ε} (h : Run stepC s es s') (hR : R s t)
    (hreach : Reachable stepA t₀ t) :
    ∃ t', Run stepA t (es.flatMap project) t' ∧ R s' t' := by
  induction h generalizing t with
  | nil s => exact ⟨t, .nil t, hR⟩
  | cons hstep _ ih =>
      obtain ⟨t₁, hrun, hR₁⟩ := square _ _ _ _ hR hreach hstep
      obtain ⟨t₂, hrest, hR₂⟩ := ih hR₁ (hreach.run hrun)
      exact ⟨t₂, hrun.append hrest, hR₂⟩

/-- The converse direction: if every abstract step is matched by finitely
many concrete steps that project to it, so is every abstract run. -/
theorem Run.lift {t₀ : τ}
    (cosquare : ∀ s t d t', R s t → Reachable stepA t₀ t → stepA t d t' →
      ∃ es s', Run stepC s es s' ∧ es.flatMap project = [d] ∧ R s' t')
    {s : σ} {t t' : τ} {ds : List δ} (h : Run stepA t ds t') (hR : R s t)
    (hreach : Reachable stepA t₀ t) :
    ∃ es s', Run stepC s es s' ∧ es.flatMap project = ds ∧ R s' t' := by
  induction h generalizing s with
  | nil t => exact ⟨[], s, .nil s, rfl, hR⟩
  | cons hstep _ ih =>
      obtain ⟨es, s₁, hrun, hproj, hR₁⟩ := cosquare _ _ _ _ hR hreach hstep
      obtain ⟨fs, s₂, hrest, hproj', hR₂⟩ := ih hR₁ (hreach.run (.single hstep))
      refine ⟨es ++ fs, s₂, hrun.append hrest, ?_, hR₂⟩
      rw [List.flatMap_append, hproj, hproj']
      rfl

end Simulation

/-! ## Call sequences against a total reference -/

section Calls

variable {α β φ : Type*}

/-- Issue the calls in order, collecting the answers; a fault ends the
sequence. -/
def exec (step : σ → α → Except φ (β × σ)) : σ → List α → Except φ (List β × σ)
  | s, [] => .ok ([], s)
  | s, a :: rest =>
      match step s a with
      | .error f => .error f
      | .ok (b, s') =>
          match exec step s' rest with
          | .error f => .error f
          | .ok (bs, s'') => .ok (b :: bs, s'')

/-- The same for a machine that always answers. -/
def execSpec (spec : τ → α → β × τ) : τ → List α → List β × τ
  | t, [] => ([], t)
  | t, a :: rest =>
      let (b, t') := spec t a
      let (bs, t'') := execSpec spec t' rest
      (b :: bs, t'')

/-- Every call of the sequence is permitted where the reference stands when
it is made. -/
def Legal (ok : τ → α → Prop) (spec : τ → α → β × τ) : τ → List α → Prop
  | _, [] => True
  | t, a :: rest => ok t a ∧ Legal ok spec (spec t a).2 rest

/-- On a legal sequence the machine never faults, gives the reference's
answers and ends related to the reference. -/
theorem exec_refines {step : σ → α → Except φ (β × σ)} {spec : τ → α → β × τ}
    {ok : τ → α → Prop} {R : σ → τ → Prop}
    (square : ∀ s t a, R s t → ok t a →
      ∃ s', step s a = .ok ((spec t a).1, s') ∧ R s' (spec t a).2)
    {s : σ} {t : τ} (calls : List α) (hR : R s t) (legal : Legal ok spec t calls) :
    ∃ s', exec step s calls = .ok ((execSpec spec t calls).1, s') ∧
      R s' (execSpec spec t calls).2 := by
  induction calls generalizing s t with
  | nil => exact ⟨s, rfl, hR⟩
  | cons a rest ih =>
      obtain ⟨s₁, hstep, hR₁⟩ := square s t a hR legal.1
      obtain ⟨s₂, hrest, hR₂⟩ := ih hR₁ legal.2
      refine ⟨s₂, ?_, hR₂⟩
      simp only [exec, hstep, hrest, execSpec]

/-- Two outcomes match: the same fault, or answers that agree through `g` and
related states. -/
def Matches {γ : Type*} (g : β → γ) (R : σ → τ → Prop) (x : Except φ (β × σ))
    (y : Except φ (γ × τ)) : Prop :=
  (∃ f, x = .error f ∧ y = .error f) ∨ ∃ b s t, x = .ok (b, s) ∧ y = .ok (g b, t) ∧ R s t

theorem Matches.mono {γ : Type*} {g : β → γ} {R R' : σ → τ → Prop} {x : Except φ (β × σ)}
    {y : Except φ (γ × τ)} (h : Matches g R x y) (weaker : ∀ s t, R s t → R' s t) :
    Matches g R' x y := by
  rcases h with h | ⟨b, s, t, hx, hy, hR⟩
  · exact .inl h
  · exact .inr ⟨b, s, t, hx, hy, weaker s t hR⟩

/-- The steps of a machine that may fault, as a relation between states. -/
def Answers (step : σ → α → Except φ (β × σ)) (s : σ) (b : β) (s' : σ) : Prop :=
  ∃ a, step s a = .ok (b, s')

/-- When single steps match, so do whole sequences. A step may use that the
second machine is somewhere it can get to. -/
theorem exec_matches {γ : Type*} {g : β → γ} {R : σ → τ → Prop}
    {step : σ → α → Except φ (β × σ)} {step' : τ → α → Except φ (γ × τ)} {t₀ : τ}
    (square : ∀ s t a, R s t → Reachable (Answers step') t₀ t →
      Matches g R (step s a) (step' t a))
    {s : σ} {t : τ} (calls : List α) (hR : R s t) (hreach : Reachable (Answers step') t₀ t) :
    Matches (List.map g) R (exec step s calls) (exec step' t calls) := by
  induction calls generalizing s t with
  | nil => exact .inr ⟨[], s, t, rfl, rfl, hR⟩
  | cons a rest ih =>
      rcases square s t a hR hreach with ⟨f, hs, ht⟩ | ⟨b, s₁, t₁, hs, ht, hR₁⟩
      · exact .inl ⟨f, by simp only [exec, hs], by simp only [exec, ht]⟩
      · rcases ih hR₁ (hreach.run (.single ⟨a, ht⟩)) with
          ⟨f, hs', ht'⟩ | ⟨bs, s₂, t₂, hs', ht', hR₂⟩
        · exact .inl ⟨f, by simp only [exec, hs, hs'], by simp only [exec, ht, ht']⟩
        · exact .inr ⟨b :: bs, s₂, t₂, by simp only [exec, hs, hs'],
            by simp only [exec, ht, ht', List.map_cons], hR₂⟩

/-- Every call up to the first fault is one of `ok` where the machine stands
when it is made. -/
def Throughout (ok : σ → α → Prop) (step : σ → α → Except φ (β × σ)) : σ → List α → Prop
  | _, [] => True
  | s, a :: rest => ok s a ∧ ∀ b s', step s a = .ok (b, s') → Throughout ok step s' rest

theorem exec_cons_error {step : σ → α → Except φ (β × σ)} {s : σ} {a : α} {f : φ}
    (h : step s a = .error f) (rest : List α) : exec step s (a :: rest) = .error f := by
  simp only [exec, h]

theorem exec_cons_ok {step : σ → α → Except φ (β × σ)} {s s₁ : σ} {a : α} {b : β}
    (h : step s a = .ok (b, s₁)) (rest : List α) :
    exec step s (a :: rest) = (exec step s₁ rest).map fun p => (b :: p.1, p.2) := by
  simp only [exec, h]
  cases exec step s₁ rest <;> rfl

/-- When the calls that do not fault are known, so are the sequences. -/
theorem exec_ok_iff {ok : σ → α → Prop} {step : σ → α → Except φ (β × σ)}
    (safe : ∀ s a, (∃ b s', step s a = .ok (b, s')) ↔ ok s a) (s : σ) (calls : List α) :
    (∃ bs s', exec step s calls = .ok (bs, s')) ↔ Throughout ok step s calls := by
  induction calls generalizing s with
  | nil => exact ⟨fun _ => trivial, fun _ => ⟨[], s, rfl⟩⟩
  | cons a rest ih =>
      cases hstep : step s a with
      | error f =>
          have hbad : ¬ ok s a := by
            rw [← safe, hstep]
            rintro ⟨b, s', ⟨⟩⟩
          rw [exec_cons_error hstep]
          constructor
          · rintro ⟨bs, s', ⟨⟩⟩
          · intro h
            exact absurd h.1 hbad
      | ok p =>
          obtain ⟨b, s₁⟩ := p
          have hok : ok s a := (safe s a).mp ⟨b, s₁, hstep⟩
          rw [exec_cons_ok hstep]
          constructor
          · intro hrun
            refine ⟨hok, ?_⟩
            intro b' s₁' hstep'
            rw [hstep] at hstep'
            cases hstep'
            rw [← ih]
            cases hrest : exec step s₁ rest with
            | error f => simp [hrest, Except.map] at hrun
            | ok q => exact ⟨q.1, q.2, rfl⟩
          · intro h
            obtain ⟨bs, s', hrest⟩ := (ih s₁).mpr (h.2 b s₁ hstep)
            exact ⟨b :: bs, s', by rw [hrest]; rfl⟩

/-- A machine that always answers, on a sequence of calls. -/
def trace (ideal : τ → α → β × τ) : τ → List α → List β × τ
  | t, [] => ([], t)
  | t, a :: rest => ((ideal t a).1 :: (trace ideal (ideal t a).2 rest).1,
      (trace ideal (ideal t a).2 rest).2)

/-- Where every call that goes through answers as an ideal machine does, a
sequence that goes through has the answers of that machine. -/
theorem exec_follows {R : σ → τ → Prop} {step : σ → α → Except φ (β × σ)}
    {ideal : τ → α → β × τ}
    (follows : ∀ s t a b s', R s t → step s a = .ok (b, s') →
      b = (ideal t a).1 ∧ R s' (ideal t a).2)
    {s s' : σ} {t : τ} {bs : List β} {calls : List α}
    (hrun : exec step s calls = .ok (bs, s')) (hR : R s t) :
    bs = (trace ideal t calls).1 ∧ R s' (trace ideal t calls).2 := by
  induction calls generalizing s t bs with
  | nil =>
      cases hrun
      exact ⟨rfl, hR⟩
  | cons a rest ih =>
      cases hstep : step s a with
      | error f =>
          rw [exec_cons_error hstep] at hrun
          cases hrun
      | ok p =>
          rw [exec_cons_ok hstep] at hrun
          cases hrest : exec step p.2 rest with
          | error f =>
              rw [hrest] at hrun
              cases hrun
          | ok q =>
              rw [hrest] at hrun
              cases hrun
              obtain ⟨hanswer, hR'⟩ := follows s t a p.1 p.2 hR hstep
              obtain ⟨hanswers, hend⟩ := ih hrest hR'
              exact ⟨congrArg₂ List.cons hanswer hanswers, hend⟩

/-- Two machines give the same answers, or the same fault, and stand in
related states after every prefix of the calls. -/
def InStep (R : σ → τ → Prop) (step : σ → α → Except φ (β × σ))
    (step' : τ → α → Except φ (β × τ)) (s : σ) (t : τ) (calls : List α) : Prop :=
  ∀ p, p <+: calls → Matches id R (exec step s p) (exec step' t p)

section InStep

variable {R : σ → τ → Prop} {step : σ → α → Except φ (β × σ)} {step' : τ → α → Except φ (β × τ)}

theorem matches_cons (b : β) (x : Except φ (List β × σ)) (y : Except φ (List β × τ)) :
    Matches id R (x.map fun p => (b :: p.1, p.2)) (y.map fun p => (b :: p.1, p.2)) ↔
      Matches id R x y := by
  cases x <;> cases y <;> simp [Matches, Except.map, Prod.ext_iff]

theorem matches_singleton (s : σ) (t : τ) (a : α) :
    Matches id R (exec step s [a]) (exec step' t [a]) ↔
      Matches id R (step s a) (step' t a) := by
  cases hs : step s a <;> cases ht : step' t a <;>
    simp [exec, hs, ht, Matches, Prod.ext_iff]

theorem inStep_cons {s : σ} {t : τ} (hR : R s t) (a : α) (rest : List α) :
    InStep R step step' s t (a :: rest) ↔
      Matches id R (step s a) (step' t a) ∧
        ∀ b s₁ t₁, step s a = .ok (b, s₁) → step' t a = .ok (b, t₁) →
          InStep R step step' s₁ t₁ rest := by
  constructor
  · intro h
    -- the shortest prefix compares the one call, the longer ones what follows
    refine ⟨(matches_singleton s t a).mp (h [a] (List.prefix_append [a] rest)), ?_⟩
    intro b s₁ t₁ hs ht p hp
    have hlong := h (a :: p) (List.cons_prefix_cons.mpr ⟨rfl, hp⟩)
    rwa [exec_cons_ok hs, exec_cons_ok ht, matches_cons] at hlong
  · rintro ⟨hone, hrest⟩ p hp
    cases p with
    | nil => exact .inr ⟨[], s, t, rfl, rfl, hR⟩
    | cons a' p =>
        obtain ⟨rfl, htail⟩ := List.cons_prefix_cons.mp hp
        rcases hone with ⟨f, hs, ht⟩ | ⟨b, s₁, t₁, hs, ht, hR₁⟩
        · exact .inl ⟨f, exec_cons_error hs p, exec_cons_error ht p⟩
        · rw [exec_cons_ok hs, exec_cons_ok ht]
          exact (matches_cons b _ _).mpr (hrest b s₁ t₁ hs ht p htail)

/-- When single calls agree exactly where `ok` says, sequences stay in step
exactly as long as every call is one of those. -/
theorem inStep_iff {ok : σ → α → Prop}
    (square : ∀ s t a, R s t → (Matches id R (step s a) (step' t a) ↔ ok s a))
    {s : σ} {t : τ} (hR : R s t) (calls : List α) :
    InStep R step step' s t calls ↔ Throughout ok step s calls := by
  induction calls generalizing s t with
  | nil =>
      refine ⟨fun _ => trivial, ?_⟩
      intro _ p hp
      rw [List.prefix_nil.mp hp]
      exact .inr ⟨[], s, t, rfl, rfl, hR⟩
  | cons a rest ih =>
      rw [inStep_cons hR, square s t a hR]
      constructor
      · rintro ⟨hok, hrest⟩
        refine ⟨hok, ?_⟩
        intro b s₁ hs
        rcases (square s t a hR).mpr hok with ⟨f, hs', -⟩ | ⟨b', s₁', t₁, hs', ht, hR₁⟩
        · rw [hs] at hs'
          cases hs'
        · rw [hs] at hs'
          cases hs'
          exact (ih hR₁).mp (hrest b s₁ t₁ hs ht)
      · rintro ⟨hok, hrest⟩
        refine ⟨hok, ?_⟩
        intro b s₁ t₁ hs ht
        rcases (square s t a hR).mpr hok with ⟨f, hs', -⟩ | ⟨b', s₁', t₁', hs', ht', hR₁⟩
        · rw [hs] at hs'
          cases hs'
        · rw [hs] at hs'
          rw [ht] at ht'
          cases hs'
          cases ht'
          exact (ih hR₁).mpr (hrest b s₁ hs)

end InStep

end Calls

end Lts
