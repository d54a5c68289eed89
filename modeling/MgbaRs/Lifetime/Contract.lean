import MgbaRs.Lifetime.Link

/-!
# The lifecycle contract

`pointers_sound_iff`: an orderly run of API calls uses nothing that is gone
and leaves no dangling pointer behind exactly when every call of it keeps the
contract. That is the contract the link's documentation states, and one clause
it does not: `set_traps` on a core without traps must not be given an address
twice, even by a caller who catches the panic.

`contract_safe`: in a run that keeps it, nothing is used after it was freed,
freed twice or leaked, but for the core `new_gba` has created when it panics
over the name of the configuration.
-/

namespace MgbaRs.Lifetime

/-! ## One call -/

section Call

variable {M : Mgba} {lost : Nat → Prop} {b : Build} {w : World} {c : Call} {answer : Answer}
  {ops : Ops} {H : Handles}

/-- A call that keeps the contract finds all it needs and leaves the
invariant as it was. -/
theorem call_inv (hM : M.Documented) (h : w.Inv lost)
    (hcall : w.call M b c = some (answer, ops, H)) (horderly : w.Orderly c)
    (hkeeps : w.Keeps c) :
    w.heap.Fine ops ∧ World.Inv (fun i => lost i ∨ c.Loses i) ⟨w.heap.exec ops, H⟩ := by
  have hmono : ∀ {w' : World}, w'.Inv lost → w'.Inv (fun i => lost i ∨ c.Loses i) :=
    fun h' => h'.mono fun _ => .inl
  have henter : ∀ i o, w.handles.cores i = some o → w.heap.Ok (.enter (.core i)) :=
    fun i o ho => h.linked.enter_core (h.live_core ho)
  cases c with
  | newGba i created configName =>
      simp only [World.call] at hcall
      split at hcall
      · cases hcall
      · rename_i hfresh
        cases hcall
        exact newGba_inv h hfresh created configName
  | setRtcFixed i =>
      obtain ⟨o, ho, heq⟩ := Option.bind_eq_some_iff.mp hcall
      cases heq
      obtain ⟨hfine, hinv⟩ := renew_inv (k := .rtc) h ho (.inr rfl)
        (show { o with rtc := some w.handles.next }.box .rtc = _ from rfl) (by
          intro k hk
          cases k with
          | rtc => exact absurd rfl hk
          | _ => rfl)
      exact ⟨hfine, hmono hinv⟩
  | enableVideoBuffer i width height =>
      obtain ⟨o, ho, heq⟩ := Option.bind_eq_some_iff.mp hcall
      cases heq
      cases b.mul width height with
      | error f => exact ⟨⟨henter i o ho, trivial⟩, hmono (h.skip ho)⟩
      | ok size =>
          obtain ⟨hfine, hinv⟩ := renew_inv (k := .videoBuffer) h ho (.inl rfl)
            (show { o with videoBuffer := some w.handles.next }.box .videoBuffer = _ from rfl) (by
              intro k hk
              cases k with
              | videoBuffer => exact absurd rfl hk
              | _ => rfl)
          exact ⟨⟨henter i o ho, hfine⟩, hmono hinv⟩
  | setTraps i addrs =>
      obtain ⟨o, ho, heq⟩ := Option.bind_eq_some_iff.mp hcall
      cases heq
      obtain ⟨hfine, hinv⟩ := setTraps_inv h ho (hkeeps o ho)
      exact ⟨hfine, hmono hinv⟩
  | core i =>
      obtain ⟨o, ho, heq⟩ := Option.bind_eq_some_iff.mp hcall
      cases heq
      exact ⟨⟨henter i o ho, trivial⟩, hmono h⟩
  | reset i =>
      obtain ⟨o, ho, heq⟩ := Option.bind_eq_some_iff.mp hcall
      cases heq
      obtain ⟨hfine, hinv⟩ := reset_inv hM h (h.live_core ho)
      exact ⟨hfine, hmono hinv⟩
  | dropCore i =>
      obtain ⟨o, ho, heq⟩ := Option.bind_eq_some_iff.mp hcall
      cases heq
      obtain ⟨hfine, hinv⟩ := drop_inv hM h ho
      exact ⟨hfine, hmono hinv⟩
  | newCoordinator j =>
      simp only [World.call] at hcall
      split at hcall
      · cases hcall
      · rename_i hfresh
        cases hcall
        obtain ⟨hfine, hinv⟩ := newCoordinator_inv h (by simpa using hfresh)
        exact ⟨hfine, hmono hinv⟩
  | attachedPlayers j =>
      simp only [World.call] at hcall
      split at hcall
      · rename_i hj
        cases hcall
        exact ⟨⟨h.linked.enter (h.owned (.coordinator j) hj) (by simp), trivial⟩, hmono h⟩
      · cases hcall
  | dropCoordinator j =>
      simp only [World.call] at hcall
      split at hcall
      · rename_i hj
        cases hcall
        obtain ⟨hfine, hinv⟩ := dropCoordinator_inv h hj hkeeps
        exact ⟨hfine, hmono hinv⟩
      · cases hcall
  | newDriver d j =>
      simp only [World.call] at hcall
      split at hcall
      · rename_i hnew
        cases hcall
        obtain ⟨hfine, hinv⟩ := newDriver_inv h hnew.1 hnew.2
        exact ⟨hfine, hmono hinv⟩
      · cases hcall
  | install d i =>
      simp only [World.call] at hcall
      split at hcall
      · rename_i hd
        obtain ⟨o, ho, heq⟩ := Option.bind_eq_some_iff.mp hcall
        cases heq
        obtain ⟨hfine, hinv⟩ :=
          install_inv hM h (h.live_core ho) (h.owned (.driver d) hd) horderly
        exact ⟨hfine, hmono hinv⟩
      · cases hcall
  | uninstall d i =>
      simp only [World.call] at hcall
      split at hcall
      · obtain ⟨o, ho, heq⟩ := Option.bind_eq_some_iff.mp hcall
        cases heq
        obtain ⟨hfine, hinv⟩ := uninstall_inv (d := d) hM h (h.live_core ho)
        exact ⟨hfine, hmono hinv⟩
      · cases hcall
  | driver d =>
      simp only [World.call] at hcall
      split at hcall
      · rename_i hd
        cases hcall
        refine ⟨⟨h.linked.enter (h.owned (.driver d) hd) ?_, trivial⟩, hmono h⟩
        rintro d' i ⟨⟩ hi
        exact hkeeps i hi
      · cases hcall
  | dropDriver d =>
      simp only [World.call] at hcall
      split at hcall
      · rename_i hd
        cases hcall
        obtain ⟨hfine, hinv⟩ := dropDriver_inv h hd hkeeps
        exact ⟨hfine, hmono hinv⟩
      · cases hcall

/-- A call that breaks it uses something freed or leaves a pointer to it. -/
theorem call_dangles (h : w.Inv lost) (hcall : w.call M b c = some (answer, ops, H))
    (hbreaks : ¬ w.Keeps c) : ¬ (w.heap.Fine ops ∧ NoDangling (w.heap.exec ops)) := by
  rintro ⟨hfine, hnone⟩
  cases c with
  | setTraps i addrs =>
      obtain ⟨o, ho, heq⟩ := Option.bind_eq_some_iff.mp hcall
      cases heq
      simp only [World.Keeps, ho, Option.some.injEq, forall_eq', Classical.not_imp] at hbreaks
      exact setTraps_dangles h ho hbreaks.1 hbreaks.2 hnone
  | driver d =>
      simp only [World.call] at hcall
      split at hcall
      · cases hcall
        simp only [World.Keeps, not_forall] at hbreaks
        obtain ⟨i, hi, hgone⟩ := hbreaks
        exact hgone (hfine.1 _ (.single ⟨.core, hi⟩))
      · cases hcall
  | dropDriver d =>
      simp only [World.call] at hcall
      split at hcall
      · cases hcall
        simp only [World.Keeps, not_forall, not_not] at hbreaks
        obtain ⟨i, hi, hport⟩ := hbreaks
        have hdriver := hnone (.core i) .sioDriver (.driver d)
          ((Heap.live_frees _ _).mpr ⟨by simp, hi⟩) (by rwa [Heap.ref_frees]) (by simp)
        exact ((Heap.live_frees _ _).mp hdriver).1 List.mem_cons_self
      · cases hcall
  | dropCoordinator j =>
      simp only [World.call] at hcall
      split at hcall
      · cases hcall
        simp only [World.Keeps, not_forall, not_not] at hbreaks
        obtain ⟨d, hd, hattached⟩ := hbreaks
        have hcoordinator := hnone (.driver d) .coordinator (.coordinator j)
          (by simpa using hd) hattached (by simp)
        simp at hcoordinator
      · cases hcall
  | _ => exact absurd trivial hbreaks

end Call

/-! ## Whole runs -/

/-- The step of a run in which nothing goes wrong: every operation of the
call finds what it needs. -/
def World.SafeStep (M : Mgba) (b : Build) (w : World) (c : Call) (w' : World) : Prop :=
  ∃ answer ops H, w.call M b c = some (answer, ops, H) ∧ w.heap.Fine ops ∧
    w' = ⟨w.heap.exec ops, H⟩

/-- The contract is what makes the difference: a step keeps it, or uses
something freed, or leaves a dangling pointer. -/
theorem step_keeps_iff {M : Mgba} (hM : M.Documented) {lost : Nat → Prop} {b : Build}
    {w w' : World} {c : Call} (h : w.Inv lost) (horderly : w.Orderly c) :
    World.SafeStep M b w c w' ∧ NoDangling w'.heap ↔ World.Step M b w c w' ∧ w.Keeps c := by
  constructor
  · rintro ⟨⟨answer, ops, H, hcall, hfine, rfl⟩, hnone⟩
    refine ⟨⟨answer, ops, H, hcall, rfl⟩, ?_⟩
    by_contra hbreaks
    exact call_dangles h hcall hbreaks ⟨hfine, hnone⟩
  · rintro ⟨⟨answer, ops, H, hcall, rfl⟩, hkeeps⟩
    obtain ⟨hfine, hinv⟩ := call_inv hM h hcall horderly hkeeps
    exact ⟨⟨answer, ops, H, hcall, hfine, rfl⟩, hinv.linked.noDangling⟩

/-- **No dangling pointer.** With an mGBA that does what is relied on, an
orderly run of API calls uses nothing that is not there and leaves no pointer
to anything freed exactly when every call of the run keeps the contract. -/
theorem pointers_sound_iff {M : Mgba} (hM : M.Documented) (b : Build) (calls : List Call)
    (w : World) :
    Lts.Run (fun w c w' => w.Orderly c ∧ World.SafeStep M b w c w' ∧ NoDangling w'.heap)
        .empty calls w ↔
      Lts.Run (fun w c w' => w.Orderly c ∧ World.Step M b w c w' ∧ w.Keeps c)
        .empty calls w := by
  refine Lts.Run.iff_of_invariant (I := fun w => ∃ lost, w.Inv lost) ?_ ?_
    ⟨fun _ => False, World.inv_empty _⟩
  · rintro w c w' ⟨lost, h⟩
    exact and_congr_right fun horderly => step_keeps_iff hM h horderly
  · rintro w c w' ⟨lost, h⟩ ⟨horderly, ⟨answer, ops, H, hcall, rfl⟩, hkeeps⟩
    exact ⟨_, (call_inv hM h hcall horderly hkeeps).2⟩

/-- The cores a list of calls loses. -/
theorem foldl_loses (lost : Nat → Prop) (calls : List Call) (i : Nat) :
    calls.foldl (fun lost c i => lost i ∨ c.Loses i) lost i ↔
      lost i ∨ ∃ c ∈ calls, c.Loses i := by
  induction calls generalizing lost with
  | nil => simp
  | cons c calls ih =>
      rw [List.foldl_cons, ih]
      simp [or_assoc]

/-- **Under the contract** no call of a run uses, frees or hands to C
anything that is not allocated, and what is allocated in the end is what the
program owns, but for one core for each `new_gba` whose name has a NUL in
it. -/
theorem contract_safe {M : Mgba} (hM : M.Documented) {b : Build} {calls : List Call} {w : World}
    (hrun : Lts.Run (fun w c w' => w.Orderly c ∧ World.Step M b w c w' ∧ w.Keeps c)
      .empty calls w) :
    Lts.Run (World.SafeStep M b) .empty calls w ∧
      (∀ blk, w.handles.owns blk = true → w.heap.live blk = true) ∧
      ∀ blk, w.heap.live blk = true →
        w.handles.owns blk = true ∨ ∃ i, blk = .core i ∧ ∃ c ∈ calls, c.Loses i := by
  have hinv : w.Inv (calls.foldl (fun lost c i => lost i ∨ c.Loses i) fun _ => False) := by
    refine hrun.foldl (P := fun lost (w : World) => w.Inv lost) ?_ (World.inv_empty _)
    rintro lost w c w' h ⟨horderly, ⟨answer, ops, H, hcall, rfl⟩, hkeeps⟩
    exact (call_inv hM h hcall horderly hkeeps).2
  refine ⟨?_, hinv.owned, ?_⟩
  · refine hrun.mono_of_invariant (I := fun w => ∃ lost, w.Inv lost) ?_
      ⟨fun _ => False, World.inv_empty _⟩
    rintro w c w' ⟨lost, h⟩ ⟨horderly, ⟨answer, ops, H, hcall, rfl⟩, hkeeps⟩
    obtain ⟨hfine, hinv'⟩ := call_inv hM h hcall horderly hkeeps
    exact ⟨⟨answer, ops, H, hcall, hfine, rfl⟩, _, hinv'⟩
  · intro blk hblk
    refine (hinv.accounted blk hblk).imp_right ?_
    rintro ⟨i, hi, rfl⟩
    exact ⟨i, rfl, ((foldl_loses _ calls i).mp hi).resolve_left id⟩

/-! ## A session -/

section Sample

/-- The player of a driver is struck out. -/
def takeLeave (h : Memory) (i : Nat) : Ops :=
  match h.ref (.core i) .sioDriver with
  | some (.driver d) =>
      match h.ref (.driver d) .coordinator with
      | some (.coordinator j) => [.store (.coordinator j) (.player d) none]
      | _ => []
  | _ => []

/-- It is registered with the coordinator the driver is attached to. -/
def register (h : Memory) (d : Nat) : Ops :=
  match h.ref (.driver d) .coordinator with
  | some (.coordinator j) => [.store (.coordinator j) (.player d) (some (.driver d))]
  | _ => []

/-- An mGBA that leaves a driver's way into its core as it is when the driver
goes. -/
def plainMgba : Mgba where
  setDriver h i p :=
    takeLeave h i ++ (.store (.core i) .sioDriver (p.map .driver) ::
      match p with
      | some d => .store (.driver d) .core (some (.core i)) :: register h d
      | none => [])
  reset h i :=
    match h.ref (.core i) .sioDriver with
    | some (.driver d) => register h d
    | _ => []
  deinit := takeLeave

theorem mem_takeLeave {h : Memory} {i : Nat} {op : Heap.Op Block Slot}
    (hop : op ∈ takeLeave h i) :
    ∃ d j, h.ref (.core i) .sioDriver = some (.driver d) ∧
      h.ref (.driver d) .coordinator = some (.coordinator j) ∧
      op = .store (.coordinator j) (.player d) none := by
  unfold takeLeave at hop
  split at hop
  · rename_i d hport
    split at hop
    · rename_i j hattached
      exact ⟨d, j, hport, hattached, List.mem_singleton.mp hop⟩
    · cases hop
  · cases hop

theorem mem_register {h : Memory} {d : Nat} {op : Heap.Op Block Slot} (hop : op ∈ register h d) :
    ∃ j, h.ref (.driver d) .coordinator = some (.coordinator j) ∧
      op = .store (.coordinator j) (.player d) (some (.driver d)) := by
  unfold register at hop
  split at hop
  · rename_i j hattached
    exact ⟨j, hattached, List.mem_singleton.mp hop⟩
  · cases hop

/-- Only the player itself is entered. -/
theorem ref_register (h m : Memory) (d : Nat) {b : Block} {s : Slot} (hs : s ≠ .player d) :
    (m.exec (register h d)).ref b s = m.ref b s := by
  unfold register
  split
  · simp [hs]
  · rfl

theorem takeLeave_unplugs (h : Memory) (i : Nat) : Unplugs h i none (takeLeave h i) where
  stores op hop := by
    obtain ⟨d, j, hport, hattached, rfl⟩ := mem_takeLeave hop
    exact .strike hport hattached
  struck d j hport _ hattached := by
    simp [takeLeave, hport, hattached]

theorem plainMgba_setDriver (h : Memory) (i : Nat) (p : Option Nat) :
    Plugs h i p (plainMgba.setDriver h i p) where
  stores op hop := by
    rcases List.mem_append.mp hop with hop | hop
    · obtain ⟨d, j, hport, hattached, rfl⟩ := mem_takeLeave hop
      exact .strike hport hattached
    rcases List.mem_cons.mp hop with rfl | hop
    · exact .port
    cases p with
    | none => cases hop
    | some d =>
        rcases List.mem_cons.mp hop with rfl | hop
        · exact .core rfl
        · obtain ⟨j, hattached, rfl⟩ := mem_register hop
          exact .register rfl hattached
  struck d j hport hp hattached := by
    have hleave : takeLeave h i = [.store (.coordinator j) (.player d) none] := by
      simp only [takeLeave, hport, hattached]
    simp only [plainMgba, hleave]
    cases p with
    | none => simp
    | some d' =>
        have hne : Slot.player d ≠ .player d' := by
          rintro ⟨⟩
          exact hp rfl
        simp [ref_register h _ d' hne]
  port := by
    simp only [plainMgba, Heap.exec_append, Heap.exec_cons]
    cases p with
    | none => simp
    | some d => simp [ref_register]
  core := by
    rintro d rfl
    simp [plainMgba, Heap.exec_append, ref_register]

/-- A reset registers who is there. -/
theorem register_plugs {h : Memory} {i d : Nat}
    (hport : h.ref (.core i) .sioDriver = some (.driver d))
    (hcore : h.ref (.driver d) .core = some (.core i)) :
    Plugs h i (some d) (register h d) where
  stores op hop := by
    obtain ⟨j, hattached, rfl⟩ := mem_register hop
    exact .register rfl hattached
  struck d' j hport' hp := by
    rw [hport] at hport'
    cases hport'
    exact absurd rfl hp
  port := by
    rw [ref_register h h d (by simp)]
    exact hport
  core := by
    rintro d' ⟨⟩
    rw [ref_register h h d (by simp)]
    exact hcore

theorem plainMgba_documented : plainMgba.Documented where
  setDriver := plainMgba_setDriver
  reset h i p hport hcore := by
    cases p with
    | none =>
        have hops : plainMgba.reset h i = [] := by
          simp only [plainMgba, hport, Option.map_none]
        rw [hops]
        exact ⟨⟨by simp, by simp [hport]⟩, hport, by simp⟩
    | some d =>
        have hops : plainMgba.reset h i = register h d := by
          simp only [plainMgba, hport, Option.map_some]
        rw [hops]
        exact register_plugs hport (hcore d rfl)
  deinit := takeLeave_unplugs

/-- A core with everything, and the link's state saved while it is up, torn
down in the order the contract asks for. -/
def session : List Call :=
  [.newGba 0 true [], .setRtcFixed 0, .setRtcFixed 0, .enableVideoBuffer 0 240 160,
    .setTraps 0 [0x08000000, 0x08000002], .newCoordinator 0, .newDriver 0 0, .install 0 0,
    .reset 0, .driver 0, .dropCore 0, .dropDriver 0, .dropCoordinator 0]

theorem session_keeps :
    ∃ w, Lts.Run (fun w c w' => w.Orderly c ∧ World.Step plainMgba .debug w c w' ∧ w.Keeps c)
      .empty session w := by
  refine ⟨_, .cons ⟨trivial, ⟨_, _, _, rfl, rfl⟩, trivial⟩ <|
    .cons ⟨trivial, ⟨_, _, _, rfl, rfl⟩, trivial⟩ <|
    .cons ⟨trivial, ⟨_, _, _, rfl, rfl⟩, trivial⟩ <|
    .cons ⟨trivial, ⟨_, _, _, rfl, rfl⟩, trivial⟩ <|
    .cons ⟨trivial, ⟨_, _, _, rfl, rfl⟩, ?_⟩ <|
    .cons ⟨trivial, ⟨_, _, _, rfl, rfl⟩, trivial⟩ <|
    .cons ⟨trivial, ⟨_, _, _, rfl, rfl⟩, trivial⟩ <|
    .cons ⟨?_, ⟨_, _, _, rfl, rfl⟩, trivial⟩ <|
    .cons ⟨trivial, ⟨_, _, _, rfl, rfl⟩, trivial⟩ <|
    .cons ⟨?_, ⟨_, _, _, rfl, rfl⟩, ?_⟩ <|
    .cons ⟨trivial, ⟨_, _, _, rfl, rfl⟩, trivial⟩ <|
    .cons ⟨trivial, ⟨_, _, _, rfl, rfl⟩, ?_⟩ <|
    .cons ⟨trivial, ⟨_, _, _, rfl, rfl⟩, ?_⟩ <| .nil _⟩
  · intro o ho _
    decide
  · -- the only core there is
    rintro i ⟨hi, -⟩
    cases i with
    | zero => rfl
    | succ i => cases hi
  · exact ⟨0, rfl, fun _ => rfl⟩
  · intro i hi
    cases hi
    rfl
  · -- the core is gone
    rintro i ⟨hi, -⟩
    cases i <;> cases hi
  · intro d hd
    cases d <;> cases hd

theorem session_sound :
    ∃ w, Lts.Run (fun w c w' => w.Orderly c ∧ World.SafeStep plainMgba .debug w c w' ∧
      NoDangling w'.heap) .empty session w := by
  obtain ⟨w, hrun⟩ := session_keeps
  exact ⟨w, (pointers_sound_iff plainMgba_documented .debug session w).mpr hrun⟩

theorem session_safe :
    ∃ w, Lts.Run (World.SafeStep plainMgba .debug) .empty session w ∧
      ∀ blk, w.heap.live blk = true →
        w.handles.owns blk = true ∨ ∃ i, blk = .core i ∧ ∃ c ∈ session, c.Loses i := by
  obtain ⟨w, hrun⟩ := session_keeps
  obtain ⟨hsafe, -, haccount⟩ := contract_safe plainMgba_documented hrun
  exact ⟨w, hsafe, haccount⟩

end Sample

end MgbaRs.Lifetime
