import MgbaRs.Trapper.Model

/-!
# What installation leaves behind

`Trapper::new` reads each original from memory as the earlier patches of the
same list left it, and checks the raw address, not the halfword it stands
for. `stampAll` is that memory; `patchLoop_ok` says what a completed loop has
recorded at every position of the list; `new_pristine_iff` says when every
trap has kept the instruction that was there before the call.
-/

namespace MgbaRs

variable {F H L S : Type} [DecidableEq L]

/-! ## Memory under a list of patches -/

/-- The halfwords the listed addresses stand for. -/
def Trapped (bus : Bus L) (addrs : List Word) (l : L) : Prop :=
  ∃ a ∈ addrs, bus.resolve a = some l

/-- Memory after patching the listed addresses in order. -/
def stampAll (bus : Bus L) (mem : L → Half) (addrs : List Word) : L → Half :=
  addrs.foldl (fun mem a => (gbaPatch16 bus mem a trapperBkpt).1) mem

theorem gbaPatch16_fst_apply (bus : Bus L) (mem : L → Half) (a : Word) (v : Half) (l : L) :
    (gbaPatch16 bus mem a v).1 l = if bus.resolve a = some l then v else mem l := by
  cases hl : bus.resolve a with
  | none => simp [gbaPatch16, hl]
  | some l' =>
      simp only [gbaPatch16, hl, Function.update_apply, Option.some.injEq, eq_comm]

theorem gbaPatch16_snd {bus : Bus L} {a : Word} {l : L} (h : bus.resolve a = some l)
    (mem : L → Half) (v : Half) : (gbaPatch16 bus mem a v).2 = mem l := by
  simp [gbaPatch16, h]

theorem stampAll_miss {bus : Bus L} {l : L} {addrs : List Word}
    (h : ¬ Trapped bus addrs l) (mem : L → Half) : stampAll bus mem addrs l = mem l := by
  induction addrs generalizing mem with
  | nil => rfl
  | cons a rest ih =>
      have hhead : bus.resolve a ≠ some l := fun hl => h ⟨a, List.mem_cons_self, hl⟩
      have hrest : ¬ Trapped bus rest l := by
        intro hl
        obtain ⟨b, hb, hbl⟩ := hl
        exact h ⟨b, List.mem_cons_of_mem _ hb, hbl⟩
      rw [stampAll, List.foldl_cons, ← stampAll, ih hrest, gbaPatch16_fst_apply, if_neg hhead]

theorem stampAll_hit {bus : Bus L} {l : L} {addrs : List Word}
    (h : Trapped bus addrs l) (mem : L → Half) : stampAll bus mem addrs l = trapperBkpt := by
  induction addrs generalizing mem with
  | nil => simp [Trapped] at h
  | cons a rest ih =>
      rw [stampAll, List.foldl_cons, ← stampAll]
      by_cases hrest : Trapped bus rest l
      · exact ih hrest _
      · -- the last patch of this halfword is the one at the head
        obtain ⟨b, hb, hl⟩ := h
        rcases List.mem_cons.mp hb with rfl | hb
        · rw [stampAll_miss hrest, gbaPatch16_fst_apply, if_pos hl]
        · exact absurd ⟨b, hb, hl⟩ hrest

/-! ## The loop -/

/-- The entry the loop makes for `p` when `before` has been patched already. -/
def trapAfter (bus : Bus L) (mem : L → Half) (before : List Word) (p : Word × H) : Trap H :=
  { handler := p.2
    original := (gbaPatch16 bus (stampAll bus mem before) p.1 trapperBkpt).2 }

/-- A loop that completes: it patched the whole list, its keys are the listed
addresses, each once, and every entry is the one made at its position. -/
structure LoopDone (bus : Bus L) (handlers : List (Word × H)) (traps : Traps H)
    (mem : L → Half) (traps' : Traps H) (mem' : L → Half) : Prop where
  memory : mem' = stampAll bus mem (handlers.map Prod.fst)
  keys : traps'.keys.Perm (handlers.map Prod.fst ++ traps.keys)
  kept : ∀ a ∈ traps, traps'.lookup a = traps.lookup a
  made : ∀ before p after, handlers = before ++ p :: after →
    traps'.lookup p.1 = some (trapAfter bus mem (before.map Prod.fst) p)

theorem patchLoop_ok {bus : Bus L} {handlers : List (Word × H)} {traps traps' : Traps H}
    {mem mem' : L → Half} (h : patchLoop bus handlers traps mem = (.ok traps', mem')) :
    LoopDone bus handlers traps mem traps' mem' := by
  induction handlers generalizing traps mem with
  | nil =>
      cases h
      refine ⟨rfl, .refl _, fun a _ => rfl, ?_⟩
      intro before p after hsplit
      simp at hsplit
  | cons q rest ih =>
      obtain ⟨addr, handler⟩ := q
      rw [patchLoop] at h
      split at h
      · cases h
      · rename_i hfresh
        obtain ⟨hmem, hkeys, hkept, hmade⟩ := ih h
        refine ⟨hmem, ?_, ?_, ?_⟩
        · rw [AList.keys_insert, List.erase_of_not_mem (AList.mem_keys.not.mp hfresh)] at hkeys
          exact hkeys.trans List.perm_middle
        · intro a ha
          have hne : a ≠ addr := by
            intro heq
            exact hfresh (heq ▸ ha)
          rw [hkept a ((AList.mem_insert _).mpr (Or.inr ha)), AList.lookup_insert_ne hne]
        · intro before p after hsplit
          cases before with
          | nil =>
              cases hsplit
              rw [hkept addr ((AList.mem_insert _).mpr (Or.inl rfl)), AList.lookup_insert]
              rfl
          | cons q before =>
              cases hsplit
              exact hmade before p after rfl

/-- A completed loop met every address once. -/
theorem LoopDone.nodup {bus : Bus L} {handlers : List (Word × H)} {traps traps' : Traps H}
    {mem mem' : L → Half} (h : LoopDone bus handlers traps mem traps' mem') :
    (handlers.map Prod.fst).Nodup :=
  ((h.keys.nodup_iff.mp traps'.keys_nodup).of_append_left)

/-- The loop completes on any list of fresh, distinct addresses. -/
theorem patchLoop_completes (bus : Bus L) {handlers : List (Word × H)} {traps : Traps H}
    (hnodup : (handlers.map Prod.fst).Nodup) (hfresh : ∀ p ∈ handlers, p.1 ∉ traps)
    (mem : L → Half) :
    ∃ traps' mem', patchLoop bus handlers traps mem = (.ok traps', mem') := by
  induction handlers generalizing traps mem with
  | nil => exact ⟨traps, mem, rfl⟩
  | cons q rest ih =>
      obtain ⟨addr, handler⟩ := q
      rw [List.map_cons, List.nodup_cons] at hnodup
      rw [patchLoop, if_neg (hfresh (addr, handler) List.mem_cons_self)]
      apply ih hnodup.2
      intro p hp hmem
      rcases (AList.mem_insert _).mp hmem with heq | hold
      · exact hnodup.1 (List.mem_map.mpr ⟨p, hp, heq⟩)
      · exact hfresh p (List.mem_cons_of_mem _ hp) hold

/-! ## `Trapper::new` -/

/-- What `Trapper::new` has done when it returns. -/
theorem Trapper.new_ok {bus : Bus L} {core core' : Core F H L S} {handlers : List (Word × H)}
    {box : Nat} (h : Trapper.new bus core handlers = (.ok box, core')) :
    ∃ traps, LoopDone bus handlers ∅ core.mem traps core'.mem ∧
      core' = { core.hook with
        mem := core'.mem
        boxes := Function.update core.boxes core.next
          (some { realBkpt16 := core.arm.bkpt16, traps }) } := by
  cases hloop : patchLoop bus handlers ∅ core.mem with
  | mk result mem =>
      cases result with
      | error f =>
          rw [Trapper.new, hloop] at h
          cases h
      | ok traps =>
          rw [Trapper.new, hloop] at h
          cases h
          exact ⟨traps, patchLoop_ok hloop, rfl⟩

/-- `Trapper::new` returns on any list of distinct addresses. -/
theorem Trapper.new_completes (bus : Bus L) (core : Core F H L S) {handlers : List (Word × H)}
    (hnodup : (handlers.map Prod.fst).Nodup) :
    ∃ core', Trapper.new bus core handlers = (.ok core.next, core') := by
  obtain ⟨traps, mem, hloop⟩ :=
    patchLoop_completes bus hnodup (fun p _ => AList.notMem_empty p.1) core.mem
  rw [Trapper.new, hloop]
  exact ⟨_, rfl⟩

/-- It panics on a repeated address, with the hook already in place. -/
theorem Trapper.new_panics (bus : Bus L) (core : Core F H L S) {handlers : List (Word × H)}
    (hdup : ¬ (handlers.map Prod.fst).Nodup) :
    ∃ fault core', Trapper.new bus core handlers = (.error fault, core') ∧
      core'.arm.bkpt16 = some .cTrapperBkpt16 := by
  cases hloop : patchLoop bus handlers ∅ core.mem with
  | mk result mem =>
      cases result with
      | ok traps => exact absurd (patchLoop_ok hloop).nodup hdup
      | error fault =>
          rw [Trapper.new, hloop]
          exact ⟨fault, _, rfl, rfl⟩

/-- The table and memory as the caller of `Trapper::new` would have them:
originals from before the call, a breakpoint at each listed location, nothing
else written, one entry for each listed pair. -/
structure Pristine (bus : Bus L) (handlers : List (Word × H)) (mem₀ : L → Half)
    (traps : Traps H) (mem : L → Half) : Prop where
  original : ∀ p ∈ handlers, ∃ trap, traps.lookup p.1 = some trap ∧ trap.handler = p.2 ∧
    ∀ l, bus.resolve p.1 = some l → trap.original = mem₀ l
  patched : ∀ p ∈ handlers, ∀ l, bus.resolve p.1 = some l → mem l = 0xBEEF
  untouched : ∀ l, (∀ p ∈ handlers, bus.resolve p.1 ≠ some l) → mem l = mem₀ l
  keys : traps.keys.Perm (handlers.map Prod.fst)

omit [DecidableEq L] in
/-- Every entry of such a table belongs to a listed pair. -/
theorem Pristine.entry {bus : Bus L} {handlers : List (Word × H)} {mem₀ mem : L → Half}
    {traps : Traps H} (h : Pristine bus handlers mem₀ traps mem) {a : Word} {trap : Trap H}
    (htrap : traps.lookup a = some trap) :
    ∃ p ∈ handlers, p.1 = a ∧ trap.handler = p.2 ∧
      ∀ l, bus.resolve a = some l → trap.original = mem₀ l := by
  have hkey : a ∈ traps.keys := by
    rw [← AList.mem_keys, ← AList.lookup_isSome, htrap]
    rfl
  obtain ⟨p, hp, rfl⟩ := List.mem_map.mp (h.keys.mem_iff.mp hkey)
  obtain ⟨trap', htrap', hhandler, horiginal⟩ := h.original p hp
  rw [htrap] at htrap'
  cases htrap'
  exact ⟨p, hp, rfl, hhandler, horiginal⟩

omit [DecidableEq L] in
/-- What holds of every listed handler holds of every handler in the table. -/
theorem Pristine.forall_handler {bus : Bus L} {handlers : List (Word × H)}
    {mem₀ mem : L → Half} {traps : Traps H} (h : Pristine bus handlers mem₀ traps mem)
    {Q : H → Prop} (hQ : ∀ p ∈ handlers, Q p.2) (a : Word) (trap : Trap H)
    (htrap : traps.lookup a = some trap) : Q trap.handler := by
  obtain ⟨p, hp, -, hhandler, -⟩ := h.entry htrap
  rw [hhandler]
  exact hQ p hp

omit [DecidableEq L] in
theorem Pristine.mem_iff {bus : Bus L} {handlers : List (Word × H)} {mem₀ mem : L → Half}
    {traps : Traps H} (h : Pristine bus handlers mem₀ traps mem) (a : Word) :
    a ∈ traps ↔ a ∈ handlers.map Prod.fst := by
  rw [AList.mem_keys]
  exact h.keys.mem_iff

/-- Distinct listed addresses stand for distinct halfwords. -/
def Separate (bus : Bus L) (handlers : List (Word × H)) : Prop :=
  ∀ p ∈ handlers, ∀ q ∈ handlers, p.1 ≠ q.1 →
    ∀ l, bus.resolve p.1 = some l → bus.resolve q.1 ≠ some l

omit [DecidableEq L] in
theorem separate_singleton (bus : Bus L) (p : Word × H) : Separate bus [p] := by
  intro q hq r hr hne
  rw [List.mem_singleton] at hq hr
  rw [hq, hr] at hne
  exact absurd rfl hne

/-- Two listed addresses that stand for one halfword find it holding the trap
breakpoint already. -/
def NoCollision (bus : Bus L) (handlers : List (Word × H)) (mem₀ : L → Half) : Prop :=
  ∀ p ∈ handlers, ∀ q ∈ handlers, p.1 ≠ q.1 →
    ∀ l, bus.resolve p.1 = some l → bus.resolve q.1 = some l → mem₀ l = 0xBEEF

omit [DecidableEq L] in
theorem Separate.noCollision {bus : Bus L} {handlers : List (Word × H)}
    (h : Separate bus handlers) (mem₀ : L → Half) : NoCollision bus handlers mem₀ := by
  intro p hp q hq hne l hpl hql
  exact absurd hql (h p hp q hq hne l hpl)

/-- The original an entry holds, given what was patched before it. -/
theorem trapAfter_original {bus : Bus L} {p : Word × H} {l : L}
    (hl : bus.resolve p.1 = some l) (mem : L → Half) (before : List Word) :
    (trapAfter bus mem before p).original = stampAll bus mem before l :=
  gbaPatch16_snd hl _ _

/-- Where the pristine instructions were kept, a location with two entries
held a breakpoint from the start: the later entry saw that of the earlier. -/
theorem LoopDone.breakpoint_of_collision {bus : Bus L} {handlers : List (Word × H)}
    {traps : Traps H} {mem₀ mem : L → Half} (h : LoopDone bus handlers ∅ mem₀ traps mem)
    (hpristine : Pristine bus handlers mem₀ traps mem) {before after : List (Word × H)}
    {p q : Word × H} (hsplit : handlers = before ++ q :: after) (hp : p ∈ before) {l : L}
    (hpl : bus.resolve p.1 = some l) (hql : bus.resolve q.1 = some l) : mem₀ l = 0xBEEF := by
  obtain ⟨-, -, -, hmade⟩ := h
  have hq : q ∈ handlers := by
    rw [hsplit]
    simp
  obtain ⟨trap, hlookup, -, horiginal⟩ := hpristine.original q hq
  rw [hmade before q after hsplit, Option.some.injEq] at hlookup
  subst hlookup
  have hsaved := trapAfter_original hql mem₀ (before.map Prod.fst)
  rw [stampAll_hit ⟨p.1, List.mem_map_of_mem hp, hpl⟩, horiginal l hql] at hsaved
  exact hsaved

theorem LoopDone.noCollision {bus : Bus L} {handlers : List (Word × H)}
    {traps : Traps H} {mem₀ mem : L → Half} (h : LoopDone bus handlers ∅ mem₀ traps mem)
    (hpristine : Pristine bus handlers mem₀ traps mem) : NoCollision bus handlers mem₀ := by
  intro p hp q hq hne l hpl hql
  obtain ⟨before, after, hsplit⟩ := List.append_of_mem hq
  have hpmem : p ∈ before ++ q :: after := hsplit ▸ hp
  -- which of the two comes first does not matter
  rcases List.mem_append.mp hpmem with hp | hp
  · exact h.breakpoint_of_collision hpristine hsplit hp hpl hql
  · rcases List.mem_cons.mp hp with rfl | hp
    · exact absurd rfl hne
    · obtain ⟨between, after', hafter⟩ := List.append_of_mem hp
      have hsplit' : handlers = (before ++ q :: between) ++ p :: after' := by
        rw [hsplit, hafter]
        simp
      exact h.breakpoint_of_collision hpristine hsplit' (by simp) hql hpl

theorem LoopDone.pristine {bus : Bus L} {handlers : List (Word × H)}
    {traps : Traps H} {mem₀ mem : L → Half} (h : LoopDone bus handlers ∅ mem₀ traps mem)
    (hfree : NoCollision bus handlers mem₀) : Pristine bus handlers mem₀ traps mem := by
  have hnodup := h.nodup
  obtain ⟨hmem, hkeys, -, hmade⟩ := h
  refine ⟨?_, ?_, ?_, by simpa using hkeys⟩
  · intro p hp
    obtain ⟨before, after, hsplit⟩ := List.append_of_mem hp
    refine ⟨_, hmade before p after hsplit, rfl, ?_⟩
    intro l hl
    rw [trapAfter_original hl]
    by_cases hit : Trapped bus (before.map Prod.fst) l
    · rw [stampAll_hit hit]
      obtain ⟨a, ha, hal⟩ := hit
      obtain ⟨q, hq, rfl⟩ := List.mem_map.mp ha
      have hqmem : q ∈ handlers := by
        rw [hsplit]
        exact List.mem_append_left _ hq
      have hne : q.1 ≠ p.1 := by
        rw [hsplit, List.map_append, List.map_cons, List.nodup_append] at hnodup
        exact hnodup.2.2 _ (List.mem_map_of_mem hq) _ List.mem_cons_self
      exact (hfree q hqmem p hp hne l hal hl).symm
    · exact stampAll_miss hit _
  · intro p hp l hl
    rw [hmem]
    exact stampAll_hit ⟨p.1, List.mem_map_of_mem hp, hl⟩ _
  · intro l hnone
    rw [hmem]
    apply stampAll_miss
    intro hit
    obtain ⟨a, ha, hal⟩ := hit
    obtain ⟨p, hp, rfl⟩ := List.mem_map.mp ha
    exact hnone p hp hal

/-- A loop from an empty table keeps the pristine instructions exactly when
no two listed addresses collide. -/
theorem LoopDone.pristine_iff {bus : Bus L} {handlers : List (Word × H)} {traps : Traps H}
    {mem₀ mem : L → Half} (h : LoopDone bus handlers ∅ mem₀ traps mem) :
    Pristine bus handlers mem₀ traps mem ↔ NoCollision bus handlers mem₀ :=
  ⟨h.noCollision, h.pristine⟩

/-- The trapper a completed `Trapper::new` has registered. -/
theorem Trapper.registered_new {bus : Bus L} {core core' : Core F H L S}
    {handlers : List (Word × H)} {box : Nat}
    (h : Trapper.new bus core handlers = (.ok box, core')) :
    ∃ traps, core'.registered = some { realBkpt16 := core.arm.bkpt16, traps } ∧
      LoopDone bus handlers ∅ core.mem traps core'.mem := by
  obtain ⟨traps, hdone, hcore⟩ := Trapper.new_ok h
  refine ⟨traps, ?_, hdone⟩
  rw [hcore]
  show Function.update core.boxes core.next _ core.next = _
  rw [Function.update_self]

/-- The registered table holds the pristine instructions. -/
def RemembersPristine (bus : Bus L) (handlers : List (Word × H))
    (core core' : Core F H L S) : Prop :=
  ∃ trapper, core'.registered = some trapper ∧
    Pristine bus handlers core.mem trapper.traps core'.mem

/-- **Every trap remembers the pristine instruction** exactly when no two
listed addresses collide. -/
theorem Trapper.new_pristine_iff {bus : Bus L} {core core' : Core F H L S}
    {handlers : List (Word × H)} {box : Nat}
    (h : Trapper.new bus core handlers = (.ok box, core')) :
    RemembersPristine bus handlers core core' ↔ NoCollision bus handlers core.mem := by
  obtain ⟨traps, hreg, hdone⟩ := Trapper.registered_new h
  rw [← hdone.pristine_iff]
  constructor
  · intro hpristine
    obtain ⟨trapper, htrapper, hok⟩ := hpristine
    rw [hreg, Option.some.injEq] at htrapper
    subst htrapper
    exact hok
  · intro hok
    exact ⟨_, hreg, hok⟩

/-- Two adjacent ROM instructions: installed, and both remembered. -/
theorem Trapper.new_pristine_adjacent :
    ∃ box core', Trapper.new Bus.cart (Core.boot () (fun _ => 0x46c0) ())
        [(0x08000000, ()), (0x08000002, ())] = (.ok box, core') ∧
      RemembersPristine Bus.cart [(0x08000000, ()), (0x08000002, ())]
        (Core.boot () (fun _ => 0x46c0) ()) core' := by
  refine ⟨_, _, rfl, (Trapper.new_pristine_iff rfl).mpr ?_⟩
  intro p hp q hq hne l hpl hql
  simp only [List.mem_cons, List.not_mem_nil, or_false] at hp hq
  rcases hp with rfl | rfl <;> rcases hq with rfl | rfl
  · exact absurd rfl hne
  · exact absurd (hpl.trans hql.symm) (by decide)
  · exact absurd (hpl.trans hql.symm) (by decide)
  · exact absurd rfl hne

/-- One ROM halfword under two of its addresses: `Trapper::new` accepts the
list, and the second trap takes the first one's breakpoint for its original. -/
theorem Trapper.mirrors_lose_original :
    ∃ box core', Trapper.new Bus.cart (Core.boot () (fun _ => 0x46c0) ())
        [(0x08000000, ()), (0x0a000000, ())] = (.ok box, core') ∧
      (∃ trapper, core'.registered = some trapper ∧
        trapper.traps.lookup 0x0a000000 = some { handler := (), original := 0xBEEF }) ∧
      ¬ RemembersPristine Bus.cart [(0x08000000, ()), (0x0a000000, ())]
        (Core.boot () (fun _ => 0x46c0) ()) core' := by
  refine ⟨_, _, rfl, ⟨_, rfl, rfl⟩, ?_⟩
  intro h
  obtain ⟨trapper, hreg, hpristine⟩ := h
  cases hreg
  obtain ⟨trap, hlookup, -, horiginal⟩ :=
    hpristine.original (0x0a000000, ()) (by simp)
  have hsaved : trap = { handler := (), original := 0xBEEF } :=
    Option.some.inj (hlookup.symm.trans rfl)
  have hinitial := horiginal 0 rfl
  rw [hsaved] at hinitial
  exact absurd hinitial (by decide)

end MgbaRs
