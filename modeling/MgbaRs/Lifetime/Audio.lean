import MgbaRs.Lib.Blocks
import MgbaRs.Lib.Lts

/-!
# Resamplers and the rings they point to

`AudioResampler` hands mGBA raw pointers to the ring it reads from and the
ring it writes to, rings that live in an `OwnedAudioBuffer` or in a core, and
borrows neither: `set_source` and `set_destination` store the pointer,
`process` follows both, as far as they are set: what it does with a side that
never was is mGBA's matter. An `OwnedAudioBuffer` is pinned, so moving it
leaves its ring where it was.

Handles are numbered, and no number is used twice, so that a pointer to a ring
that is gone is not taken for one to a later ring.
-/

namespace MgbaRs.Lifetime.Audio

/-- Where a ring lives. -/
inductive Home where
  /-- `Core::audio_buffer`. -/
  | core (i : Nat)
  /-- `OwnedAudioBuffer`. -/
  | buffer (r : Nat)
deriving DecidableEq, Repr

inductive Block where
  | ring (home : Home)
  | resampler (s : Nat)
deriving DecidableEq, Repr

/-- The pointers of a resampler. -/
inductive Side where
  | source
  | destination
deriving DecidableEq, Repr

abbrev Memory := Heap Block Side
abbrev Ops := List (Heap.Op Block Side)

/-! ## The functions -/

/-- `OwnedAudioBuffer::new`, `mAudioBufferInit`; of a core, its creation. -/
def OwnedAudioBuffer.new (home : Home) : Ops := [.alloc (.ring home), .enter (.ring home)]

/-- `Drop for OwnedAudioBuffer`, `mAudioBufferDeinit`; of a core, its deinit. -/
def OwnedAudioBuffer.drop (home : Home) : Ops := [.enter (.ring home), .free (.ring home)]

/-- `AudioBuffer::available`, `read`, `write` and `clear`. -/
def AudioBuffer.use (home : Home) : Ops := [.enter (.ring home)]

/-- `AudioResampler::new`, `mAudioResamplerInit`. -/
def AudioResampler.new (s : Nat) : Ops := [.alloc (.resampler s), .enter (.resampler s)]

/-- The C side stores the pointer; it does not look at the one it replaces. -/
def AudioResampler.set (s : Nat) (side : Side) (home : Home) : Ops :=
  [.store (.resampler s) side (some (.ring home))]

def AudioResampler.setSource (s : Nat) (source : Home) : Ops :=
  AudioResampler.set s .source source

def AudioResampler.setDestination (s : Nat) (destination : Home) : Ops :=
  AudioResampler.set s .destination destination

def AudioResampler.process (s : Nat) : Ops := [.enter (.resampler s)]

/-- `Drop for AudioResampler`, `mAudioResamplerDeinit`: the rings are not the
resampler's. -/
def AudioResampler.drop (s : Nat) : Ops := [.free (.resampler s)]

/-! ## Calls -/

inductive Call where
  | newRing (home : Home)
  | useRing (home : Home)
  | dropRing (home : Home)
  | newResampler (s : Nat)
  | set (s : Nat) (side : Side) (home : Home)
  | process (s : Nat)
  | dropResampler (s : Nat)
deriving DecidableEq, Repr

/-- A handle is made once and dropped once. -/
inductive Stage where
  | fresh
  | held
  | gone
deriving DecidableEq, Repr

structure World where
  heap : Memory
  handles : Block → Stage

def World.empty : World where
  heap := .empty
  handles _ := .fresh

/-- The handle a call makes or drops, with its stage before and after it. -/
def Call.moves : Call → Option (Block × Stage × Stage)
  | .newRing home => some (.ring home, .fresh, .held)
  | .dropRing home => some (.ring home, .held, .gone)
  | .newResampler s => some (.resampler s, .fresh, .held)
  | .dropResampler s => some (.resampler s, .held, .gone)
  | _ => none

/-- The handles a call is made on. -/
def Call.on : Call → List Block
  | .useRing home => [.ring home]
  | .set s _ home => [.resampler s, .ring home]
  | .process s => [.resampler s]
  | _ => []

def Call.ops : Call → Ops
  | .newRing home => OwnedAudioBuffer.new home
  | .useRing home => AudioBuffer.use home
  | .dropRing home => OwnedAudioBuffer.drop home
  | .newResampler s => AudioResampler.new s
  | .set s .source home => AudioResampler.setSource s home
  | .set s .destination home => AudioResampler.setDestination s home
  | .process s => AudioResampler.process s
  | .dropResampler s => AudioResampler.drop s

theorem Call.ops_set (s : Nat) (side : Side) (home : Home) :
    (Call.set s side home).ops = AudioResampler.set s side home := by
  cases side with
  | source => rfl
  | destination => rfl

/-- What Rust's types let a program call. -/
def World.Has (w : World) (c : Call) : Prop :=
  (∀ b ∈ c.on, w.handles b = .held) ∧
    ∀ b before after, c.moves = some (b, before, after) → w.handles b = before

def World.next (w : World) (c : Call) : World where
  heap := w.heap.exec c.ops
  handles := match c.moves with
    | some (b, _, after) => Function.update w.handles b after
    | none => w.handles

/-- The program makes a call. -/
def World.Step (w : World) (c : Call) (w' : World) : Prop := w.Has c ∧ w' = w.next c

/-- And every operation of it finds what it needs. -/
def World.SafeStep (w : World) (c : Call) (w' : World) : Prop :=
  World.Step w c w' ∧ w.heap.Fine c.ops

/-! ## What a history says about the heap -/

/-- The ring a call points this side of the resampler to. -/
def Call.pointing (s : Nat) (side : Side) : Call → Option Home
  | .set s' side' home => if s' = s ∧ side' = side then some home else none
  | _ => none

theorem Call.pointing_eq_some_iff {s : Nat} {side : Side} {c : Call} {home : Home} :
    c.pointing s side = some home ↔ c = .set s side home := by
  cases c with
  | set s' side' home' =>
      simp only [Call.pointing, Option.ite_none_right_eq_some, Option.some.injEq, Call.set.injEq,
        and_assoc]
  | _ => simp [Call.pointing]

/-- The heap and the handles, as the calls so far left them. -/
structure Tracks (hist : List Call) (w : World) : Prop where
  live : ∀ b, w.heap.live b = true ↔ w.handles b = .held
  leaf : ∀ home side, w.heap.ref (.ring home) side = none
  points : ∀ s side,
    w.heap.ref (.resampler s) side = (Lts.lastOf (Call.pointing s side) hist).map .ring
  gone : ∀ home, w.handles (.ring home) = .gone ↔ .dropRing home ∈ hist
  /-- A resampler is pointed somewhere, and at a ring, once they are made. -/
  made : ∀ s side home, .set s side home ∈ hist →
    w.handles (.resampler s) ≠ .fresh ∧ w.handles (.ring home) ≠ .fresh
  /-- And before the ring is gone. -/
  before : ∀ pre s side home mid, hist = pre ++ .set s side home :: mid → .dropRing home ∉ pre

theorem tracks_empty : Tracks [] .empty where
  live _ := by simp [World.empty, Heap.empty]
  leaf _ _ := rfl
  points _ _ := rfl
  gone _ := by simp [World.empty]
  made _ _ _ h := by cases h
  before pre s side home mid h := by simp at h

section Step

variable {hist : List Call} {w w' : World} {c : Call}

theorem Tracks.live_next (h : Tracks hist w) (hc : w.Has c) (b : Block) :
    (w.next c).heap.live b = true ↔ (w.next c).handles b = .held := by
  have hb := h.live b
  cases c with
  | newRing home | newResampler s =>
      simp only [World.next, Call.ops, Call.moves, OwnedAudioBuffer.new, AudioResampler.new,
        Heap.exec_cons, Heap.exec_nil, Heap.apply_enter, Heap.live_alloc, Function.update_apply]
      split
      · simp [*]
      · simp [*]
  | dropRing home | dropResampler s =>
      simp only [World.next, Call.ops, Call.moves, OwnedAudioBuffer.drop, AudioResampler.drop,
        Heap.exec_cons, Heap.exec_nil, Heap.apply_enter, Heap.live_free, Function.update_apply]
      split
      · simp [*]
      · simp [*]
  | set s side home =>
      simpa only [World.next, Call.ops_set, Call.moves, AudioResampler.set, Heap.exec_cons,
        Heap.exec_nil, Heap.live_store] using hb
  | useRing home | process s => exact hb

theorem Tracks.leaf_next (h : Tracks hist w) (home : Home) (side : Side) :
    (w.next c).heap.ref (.ring home) side = none := by
  have hleaf := h.leaf home side
  cases c with
  | set s side' home' =>
      simpa [World.next, Call.ops_set, AudioResampler.set] using hleaf
  | _ =>
      simp [World.next, Call.ops, OwnedAudioBuffer.new, OwnedAudioBuffer.drop, AudioBuffer.use,
        AudioResampler.new, AudioResampler.process, AudioResampler.drop, hleaf]

/-- A resampler that is yet to be made has not been pointed anywhere. -/
theorem Tracks.lastOf_fresh (h : Tracks hist w) {s : Nat} (hs : w.handles (.resampler s) = .fresh)
    (side : Side) : Lts.lastOf (Call.pointing s side) hist = none := by
  rw [Option.eq_none_iff_forall_ne_some]
  intro home hhome
  obtain ⟨pre, e, mid, rfl, he, -⟩ := Lts.lastOf_eq_some_iff.mp hhome
  rw [Call.pointing_eq_some_iff] at he
  exact (h.made s side home (by simp [he])).1 hs

theorem Tracks.points_next (h : Tracks hist w) (hc : w.Has c) (s : Nat) (side : Side) :
    (w.next c).heap.ref (.resampler s) side =
      (Lts.lastOf (Call.pointing s side) (hist ++ [c])).map .ring := by
  have hpoints := h.points s side
  rw [Lts.lastOf_concat]
  cases c with
  | set s' side' home =>
      simp only [World.next, Call.ops_set, AudioResampler.set, Heap.exec_cons, Heap.exec_nil,
        Heap.ref_store, Block.resampler.injEq, Call.pointing]
      by_cases hs : s' = s ∧ side' = side
      · rw [if_pos hs, if_pos ⟨hs.1.symm, hs.2.symm⟩]
        rfl
      · rw [if_neg hs, if_neg fun h => hs ⟨h.1.symm, h.2.symm⟩]
        exact hpoints
  | newResampler s' =>
      simp only [World.next, Call.ops, AudioResampler.new, Heap.exec_cons, Heap.exec_nil,
        Heap.apply_enter, Heap.ref_alloc, Block.resampler.injEq, Call.pointing, Option.none_or]
      split
      · rename_i hs
        have hfresh : w.handles (.resampler s') = .fresh := hc.2 _ _ _ rfl
        rw [hs, h.lastOf_fresh hfresh]
        rfl
      · exact hpoints
  | _ =>
      simp [World.next, Call.ops, OwnedAudioBuffer.new, OwnedAudioBuffer.drop, AudioBuffer.use,
        AudioResampler.process, AudioResampler.drop, Call.pointing, hpoints]

theorem Tracks.gone_next (h : Tracks hist w) (hc : w.Has c) (home : Home) :
    (w.next c).handles (.ring home) = .gone ↔ .dropRing home ∈ hist ++ [c] := by
  have hgone := h.gone home
  rw [List.mem_append, List.mem_singleton, ← hgone]
  cases c with
  | newRing home' =>
      have hfresh : w.handles (.ring home') = .fresh := hc.2 _ _ _ rfl
      simp only [World.next, Call.moves, Function.update_apply, Block.ring.injEq, reduceCtorEq,
        or_false]
      split
      · rename_i heq
        simp [heq, hfresh]
      · rfl
  | dropRing home' =>
      simp only [World.next, Call.moves, Function.update_apply, Block.ring.injEq,
        Call.dropRing.injEq]
      split
      · rename_i heq
        simp [heq]
      · rename_i hne
        simp [hne]
  | _ => simp [World.next, Call.moves]

/-- What is made stays made. -/
theorem next_ne_fresh {b : Block} (hb : w.handles b ≠ .fresh) : (w.next c).handles b ≠ .fresh := by
  cases c with
  | newRing home | dropRing home | newResampler s | dropResampler s =>
      simp only [World.next, Call.moves, Function.update_apply]
      split
      · intro h
        cases h
      · exact hb
  | _ => exact hb

theorem Tracks.made_next (h : Tracks hist w) (hc : w.Has c) (s : Nat) (side : Side) (home : Home)
    (hset : .set s side home ∈ hist ++ [c]) :
    (w.next c).handles (.resampler s) ≠ .fresh ∧ (w.next c).handles (.ring home) ≠ .fresh := by
  rcases List.mem_append.mp hset with hold | hnew
  · obtain ⟨hs, hhome⟩ := h.made s side home hold
    exact ⟨next_ne_fresh hs, next_ne_fresh hhome⟩
  · rw [List.mem_singleton] at hnew
    subst hnew
    have hheld : ∀ b ∈ [Block.resampler s, Block.ring home], w.handles b ≠ .fresh := by
      intro b hb hfresh
      rw [hc.1 b hb] at hfresh
      cases hfresh
    exact ⟨next_ne_fresh (hheld _ (by simp)), next_ne_fresh (hheld _ (by simp))⟩

theorem Tracks.before_next (h : Tracks hist w) (hc : w.Has c) (pre : List Call) (s : Nat)
    (side : Side) (home : Home) (mid : List Call)
    (hhist : hist ++ [c] = pre ++ .set s side home :: mid) : .dropRing home ∉ pre := by
  rcases List.eq_nil_or_concat mid with rfl | ⟨mid, last, rfl⟩
  · -- the call just made
    obtain ⟨rfl, heq⟩ := List.append_inj' hhist rfl
    cases heq
    intro hdrop
    have hheld : w.handles (.ring home) = .held := hc.1 _ (by simp [Call.on])
    rw [(h.gone home).mpr hdrop] at hheld
    cases hheld
  · rw [List.concat_eq_append, ← List.cons_append, ← List.append_assoc] at hhist
    obtain ⟨rfl, -⟩ := List.append_inj' hhist rfl
    exact h.before pre s side home mid rfl

theorem Tracks.next (h : Tracks hist w) (hc : w.Has c) : Tracks (hist ++ [c]) (w.next c) where
  live := h.live_next hc
  leaf := h.leaf_next
  points := h.points_next hc
  gone := h.gone_next hc
  made := h.made_next hc
  before := h.before_next hc

end Step

/-! ## Which calls find what they need -/

/-- No ring that a side of the resampler was last pointed to has been dropped
since. -/
def Allowed (hist : List Call) : Call → Prop
  | .process s => ∀ pre side home mid, hist = pre ++ .set s side home :: mid →
      (∀ other, .set s side other ∉ mid) → .dropRing home ∉ mid
  | _ => True

section Fine

variable {hist : List Call} {w : World}

theorem Tracks.held (h : Tracks hist w) {home : Home} (hfresh : w.handles (.ring home) ≠ .fresh)
    (hdrop : .dropRing home ∉ hist) : w.heap.live (.ring home) = true := by
  rw [h.live]
  cases hstage : w.handles (.ring home) with
  | fresh => exact absurd hstage hfresh
  | held => rfl
  | gone => exact absurd ((h.gone home).mp hstage) hdrop

theorem Tracks.not_dropped (h : Tracks hist w) {home : Home}
    (hlive : w.heap.live (.ring home) = true) : .dropRing home ∉ hist := by
  intro hdrop
  have hheld := (h.live _).mp hlive
  rw [(h.gone home).mpr hdrop] at hheld
  cases hheld

/-- `process` follows both pointers. -/
theorem Tracks.process_fine_iff (h : Tracks hist w) {s : Nat} (hc : w.Has (.process s)) :
    w.heap.Fine (AudioResampler.process s) ↔ Allowed hist (.process s) := by
  have hlive : w.heap.live (.resampler s) = true :=
    (h.live _).mpr (hc.1 _ List.mem_cons_self)
  have hring : ∀ side b, w.heap.ref (.resampler s) side = some b →
      ∃ home, Lts.lastOf (Call.pointing s side) hist = some home ∧ b = .ring home := by
    intro side b hb
    rw [h.points, Option.map_eq_some_iff] at hb
    obtain ⟨home, hlast, rfl⟩ := hb
    exact ⟨home, hlast, rfl⟩
  have hleaves : ∀ side b, w.heap.ref (.resampler s) side = some b →
      ∀ side', w.heap.ref b side' = none := by
    intro side b hb side'
    obtain ⟨home, -, rfl⟩ := hring side b hb
    exact h.leaf home side'
  show w.heap.Ok (.enter (.resampler s)) ∧ True ↔ _
  rw [and_true, Heap.ok_enter_iff hleaves, and_iff_right hlive]
  constructor
  · intro hpointed pre side home mid hhist hlater
    have hlast : Lts.lastOf (Call.pointing s side) hist = some home := by
      refine Lts.lastOf_eq_some_iff.mpr ⟨pre, _, mid, hhist,
        Call.pointing_eq_some_iff.mpr rfl, ?_⟩
      intro c hc
      rw [Option.eq_none_iff_forall_ne_some]
      intro other hother
      rw [Call.pointing_eq_some_iff] at hother
      exact hlater other (hother ▸ hc)
    have hdrop := h.not_dropped (hpointed side (.ring home) (by rw [h.points, hlast]; rfl))
    intro hmid
    exact hdrop (by simp [hhist, hmid])
  · intro hallowed side b hb
    obtain ⟨home, hlast, rfl⟩ := hring side b hb
    obtain ⟨pre, c, mid, hhist, hset, hlater⟩ := Lts.lastOf_eq_some_iff.mp hlast
    rw [Call.pointing_eq_some_iff] at hset
    subst hset
    refine h.held (h.made s side home (by simp [hhist])).2 ?_
    have hmid : .dropRing home ∉ mid := by
      refine hallowed pre side home mid hhist ?_
      intro other hother
      have hnone := hlater _ hother
      rw [Call.pointing_eq_some_iff.mpr rfl] at hnone
      cases hnone
    have hpre := h.before pre s side home mid hhist
    rw [hhist]
    simp [hpre, hmid]

/-- All other calls find what they need. -/
theorem Tracks.fine_iff (h : Tracks hist w) {c : Call} (hc : w.Has c) :
    w.heap.Fine c.ops ↔ Allowed hist c := by
  have hheld : ∀ b ∈ c.on, w.heap.live b = true := fun b hb => (h.live b).mpr (hc.1 b hb)
  have hbefore : ∀ b before after, c.moves = some (b, before, after) → before ≠ .held →
      w.heap.live b = false := by
    intro b before after hmoves hne
    rw [Bool.eq_false_iff, Ne, h.live, hc.2 b before after hmoves]
    exact hne
  have hafter : ∀ b after, c.moves = some (b, .held, after) → w.heap.live b = true :=
    fun b after hmoves => (h.live b).mpr (hc.2 b .held after hmoves)
  cases c with
  | process s => exact h.process_fine_iff hc
  | newRing home | newResampler s =>
      refine iff_of_true ⟨hbefore _ .fresh .held rfl (by decide), ?_, trivial⟩ trivial
      refine Heap.ok_enter_leaf ?_ ?_
      · intro side
        simp
      · simp
  | useRing home =>
      exact iff_of_true ⟨Heap.ok_enter_leaf (h.leaf home) (hheld _ (by simp [Call.on])), trivial⟩
        trivial
  | dropRing home =>
      have hlive := hafter _ .gone rfl
      exact iff_of_true ⟨Heap.ok_enter_leaf (h.leaf home) hlive, hlive, trivial⟩ trivial
  | dropResampler s => exact iff_of_true ⟨hafter _ .gone rfl, trivial⟩ trivial
  | set s side home =>
      rw [Call.ops_set]
      refine iff_of_true ⟨⟨hheld _ (by simp [Call.on]), ?_⟩, trivial⟩ trivial
      rintro b hb
      cases hb
      exact hheld _ (by simp [Call.on])

end Fine

/-! ## Whole runs -/

/-- Whenever a resampler processes, the rings its two sides were last pointed
to are still there. -/
def NeverStale (calls : List Call) : Prop :=
  ∀ pre s side home mid post, calls = pre ++ .set s side home :: mid ++ .process s :: post →
    (∀ other, .set s side other ∉ mid) → .dropRing home ∉ mid

theorem neverStale_iff (calls : List Call) :
    NeverStale calls ↔ ∀ pre c post, calls = pre ++ c :: post → Allowed pre c := by
  constructor
  · rintro h hist c post rfl
    cases c with
    | process s =>
        rintro pre side home mid rfl
        exact h pre s side home mid post rfl
    | _ => trivial
  · intro h pre s side home mid post heq
    exact h _ _ post heq pre side home mid rfl

/-- **Resamplers.** A program is safe exactly when no resampler processes
after a ring it points to was dropped, however often it did before. -/
theorem resamplers_safe_iff (calls : List Call) (w : World) :
    Lts.Run World.SafeStep .empty calls w ↔
      Lts.Run World.Step .empty calls w ∧ NeverStale calls := by
  have hrun : Lts.Run World.SafeStep .empty calls w ↔ Lts.Run World.Step .empty calls w ∧
      ∀ pre c post, calls = pre ++ c :: post → Allowed ([] ++ pre) c := by
    refine Lts.Run.iff_of_history (I := Tracks) ?_ ?_ tracks_empty
    · intro hist w c w' h
      exact and_congr_right fun hstep => h.fine_iff hstep.1
    · rintro hist w c w' h ⟨hc, rfl⟩
      exact h.next hc
  simp only [List.nil_append] at hrun
  rw [hrun, neverStale_iff]

/-- A source dropped after it was processed once, and processed again. -/
example : ¬ NeverStale [.newRing (.buffer 0), .newResampler 0, .set 0 .source (.buffer 0),
    .process 0, .dropRing (.buffer 0), .process 0] := by
  intro h
  refine h [.newRing (.buffer 0), .newResampler 0] 0 .source (.buffer 0)
    [.process 0, .dropRing (.buffer 0)] [] rfl ?_ (by decide)
  intro other
  simp

/-- In every run, exactly what is held is allocated. -/
theorem allocated_iff_held {calls : List Call} {w : World}
    (hrun : Lts.Run World.Step .empty calls w) (b : Block) :
    w.heap.live b = true ↔ w.handles b = .held := by
  have h : Tracks (calls.foldl (fun hist c => hist ++ [c]) []) w := by
    refine hrun.foldl (P := Tracks) ?_ tracks_empty
    rintro hist w c w' h ⟨hc, rfl⟩
    exact h.next hc
  exact h.live b

/-! ## What the documentation asks for -/

/-- The contract of `set_source`: the source stays until `process` runs or a
new source is set. -/
def SourcesKept (calls : List Call) : Prop :=
  ∀ pre s home mid post, calls = pre ++ .set s .source home :: mid ++ .dropRing home :: post →
    .process s ∈ mid ∨ ∃ other, .set s .source other ∈ mid

/-- A new source is set between any two calls of `process`. -/
def SourcesRenewed (calls : List Call) : Prop :=
  ∀ pre s mid post, calls = pre ++ .process s :: mid ++ .process s :: post →
    ∃ other, .set s .source other ∈ mid

/-- The contract is enough where each source is processed once. -/
theorem SourcesKept.not_stale {calls : List Call} (hkept : SourcesKept calls)
    (hrenewed : SourcesRenewed calls) {pre mid post : List Call} {s : Nat} {home : Home}
    (heq : calls = pre ++ .set s .source home :: mid ++ .process s :: post)
    (hlater : ∀ other, .set s .source other ∉ mid) : .dropRing home ∉ mid := by
  intro hdrop
  obtain ⟨front, back, rfl⟩ := List.append_of_mem hdrop
  rcases hkept pre s home front (back ++ .process s :: post) (by simp [heq]) with
    hprocess | ⟨other, hother⟩
  · obtain ⟨first, rest, rfl⟩ := List.append_of_mem hprocess
    obtain ⟨other, hother⟩ := hrenewed (pre ++ .set s .source home :: first) s
      (rest ++ .dropRing home :: back) post (by simp [heq])
    refine hlater other ?_
    rw [List.append_assoc]
    exact List.mem_append_right _ (List.mem_cons_of_mem _ hother)
  · exact hlater other (List.mem_append_left _ hother)

end MgbaRs.Lifetime.Audio
