import MgbaRs.Lifetime.Model
import MgbaRs.Trapper.Chain

/-!
# The invariant, and the boxes of a core

`World.Inv` is what holds between two calls of a program that keeps the
contract; what of it is about the heap alone is `Linked`. `Linked.enter` is
what it is for: from a core, a coordinator or a driver whose core is there,
code finds nothing that is gone.

Each function of the API is shown to keep the invariant on its own; here are
those that make a new box: the order in which they tell mGBA of the new one
and drop the old one is what makes them safe, and the panic in the middle of
`Trapper::new` is what makes `set_traps` unsafe on a list with a repeated
address (`setTraps_dangles`).

`setTraps_matches` ties the heap of this model to the trapper's own: the
answers are the same, and a box the component slot leads to is allocated in
the one when it is in the other.
-/

namespace MgbaRs.Lifetime

/-! ## The invariant -/

/-- What the handles own. -/
def Handles.owns (H : Handles) : Block → Bool
  | .core i => (H.cores i).isSome
  | .box i k n => (H.cores i).any fun o => o.box k == some n
  | .coordinator j => H.coordinators j
  | .driver d => H.drivers d
  | .glue d => H.drivers d

/-- The pointers are in order: none dangles but a driver's into its core, and
this one not either while the driver is plugged in, as it is when its player
is registered. -/
structure Linked (h : Memory) : Prop where
  sound : h.Sound (· = .core)
  typed : h.Typed Kind
  plugged : ∀ d i, Plugged h d i → h.ref (.driver d) .core = some (.core i)
  registered : ∀ j d, h.live (.coordinator j) = true →
    h.ref (.coordinator j) (.player d) = some (.driver d) →
    h.ref (.driver d) .coordinator = some (.coordinator j) ∧ ∃ i, Plugged h d i

/-- The world between two calls: nothing is allocated but what the handles own
and the cores that are `lost`. -/
structure World.Inv (lost : Nat → Prop) (w : World) : Prop where
  linked : Linked w.heap
  owned : ∀ b, w.handles.owns b = true → w.heap.live b = true
  accounted : ∀ b, w.heap.live b = true → w.handles.owns b = true ∨
    ∃ i, lost i ∧ b = .core i
  numbered : ∀ i k n, w.heap.live (.box i k n) = true → n < w.handles.next
  made : ∀ i, w.heap.live (.core i) = true → w.handles.made i = true

theorem linked_empty : Linked .empty where
  sound := Heap.sound_empty _
  typed := Heap.typed_empty Kind
  plugged d i h := by cases h.1
  registered j d hj := by cases hj

theorem World.inv_empty (lost : Nat → Prop) : World.empty.Inv lost where
  linked := linked_empty
  owned b hb := by cases b <;> cases hb
  accounted b hb := by cases hb
  numbered i k n hb := by cases hb
  made i hi := by cases hi

theorem World.Inv.mono {lost lost' : Nat → Prop} {w : World} (h : w.Inv lost)
    (hlost : ∀ i, lost i → lost' i) : w.Inv lost' where
  linked := h.linked
  owned := h.owned
  accounted b hb := by
    refine (h.accounted b hb).imp_right ?_
    rintro ⟨i, hi, rfl⟩
    exact ⟨i, hlost i hi, rfl⟩
  numbered := h.numbered
  made := h.made

/-- Only the core's own slot leads to one of its boxes. -/
theorem ref_box {h : Memory} (ht : h.Typed Kind) {i n : Nat} {k : Box} {b : Block} {s : Slot}
    (hb : h.ref b s = some (.box i k n)) : b = .core i ∧ s = .box k := by
  cases ht b s _ hb
  exact ⟨rfl, rfl⟩

section Linked

variable {m : Memory}

theorem Linked.live_of_plugged (h : Linked m) {d i : Nat} (hd : Plugged m d i) :
    m.live (.driver d) = true :=
  h.sound _ _ _ (by simp) hd.1 hd.2

/-- A driver is in one core at most: it leads to one. -/
theorem Linked.plugged_unique (h : Linked m) {d i i' : Nat} (hd : Plugged m d i)
    (hd' : Plugged m d i') : i = i' := by
  have hcore := (h.plugged d i hd).symm.trans (h.plugged d i' hd')
  cases hcore
  rfl

/-- Where code gets on its way through the heap: to blocks that are there,
and to drivers only while the core they lead to is. -/
theorem Linked.enter (h : Linked m) {b : Block} (hb : m.live b = true)
    (hcore : ∀ d i, b = .driver d → m.ref b .core = some (.core i) → m.live (.core i) = true) :
    m.Ok (.enter b) := by
  refine Heap.ok_enter_of_closed (P := fun c => m.live c = true ∧
    ∀ d i, c = .driver d → m.ref c .core = some (.core i) → m.live (.core i) = true)
    (fun c hc => hc.1) ?_ ⟨hb, hcore⟩
  rintro c s e ⟨hc, hweak⟩ he
  have hplugged : ∀ d i, Plugged m d i → ∀ i', m.ref (.driver d) .core = some (.core i') →
      m.live (.core i') = true := by
    intro d i hd i' hi'
    rw [h.plugged d i hd] at hi'
    cases hi'
    exact hd.1
  have hstrong : s ≠ .core → m.live e = true := fun hs => h.sound c s e hs hc he
  cases h.typed c s e he with
  | core d i => exact ⟨hweak d i rfl he, by simp⟩
  | sioDriver i d =>
      refine ⟨hstrong (by simp), ?_⟩
      rintro d' i' ⟨⟩ hi'
      exact hplugged d i ⟨hc, he⟩ i' hi'
  | player j d =>
      obtain ⟨-, i, hd⟩ := h.registered j d hc he
      refine ⟨hstrong (by simp), ?_⟩
      rintro d' i' ⟨⟩ hi'
      exact hplugged d i hd i' hi'
  | box i k n => exact ⟨hstrong (by simp), by simp⟩
  | corePtr i k n => exact ⟨hstrong (by simp), by simp⟩
  | user d => exact ⟨hstrong (by simp), by simp⟩
  | coordinator d j => exact ⟨hstrong (by simp), by simp⟩

theorem Linked.noDangling (h : Linked m) : NoDangling m := by
  intro b s c hb hc hweak
  by_cases hs : s = .core
  · subst hs
    obtain ⟨d, i, rfl, hd⟩ := hweak rfl
    rw [h.plugged d i hd] at hc
    cases hc
    exact hd.1
  · exact h.sound b s c hs hb hc

/-- A new block is plugged in nowhere and nobody is registered for it. -/
theorem Linked.alloc (h : Linked m) {b : Block} (hfresh : m.live b = false) :
    Linked (m.apply (.alloc b)) := by
  have hlive : ∀ c, m.live c = true → c ≠ b := by
    rintro c hc rfl
    rw [hc] at hfresh
    cases hfresh
  have hold : ∀ d i, Plugged (m.apply (.alloc b)) d i → Plugged m d i := by
    rintro d i ⟨hi, hport⟩
    rw [Heap.ref_alloc] at hport
    split at hport
    · cases hport
    · rename_i hne
      rw [Heap.live_alloc, decide_eq_false hne, Bool.false_or] at hi
      exact ⟨hi, hport⟩
  refine ⟨h.sound.alloc b, h.typed.apply trivial, ?_, ?_⟩
  · intro d i hd
    have hd' := hold d i hd
    rw [Heap.ref_alloc, if_neg (hlive _ (h.live_of_plugged hd'))]
    exact h.plugged d i hd'
  · intro j d hj hplayer
    rw [Heap.ref_alloc] at hplayer
    split at hplayer
    · cases hplayer
    · rename_i hne
      rw [Heap.live_alloc, decide_eq_false hne, Bool.false_or] at hj
      obtain ⟨hattached, i, hd⟩ := h.registered j d hj hplayer
      refine ⟨?_, i, ?_, ?_⟩
      · rw [Heap.ref_alloc, if_neg (hlive _ (h.live_of_plugged hd))]
        exact hattached
      · rw [Heap.live_alloc, hd.1, Bool.or_true]
      · rw [Heap.ref_alloc, if_neg (hlive _ hd.1)]
        exact hd.2

/-- The slots that have no part in the link. -/
def Slot.apart : Slot → Prop
  | .box _ | .corePtr | .user => True
  | _ => False

theorem Linked.store (h : Linked m) {b c : Block} {s : Slot} (hkind : Kind b s c) (hs : s.apart)
    (hc : m.live c = true) : Linked (m.apply (.store b s (some c))) := by
  have href : ∀ b' s', ¬ s'.apart → (m.apply (.store b s (some c))).ref b' s' = m.ref b' s' := by
    intro b' s' hs'
    rw [Heap.ref_store, if_neg]
    rintro ⟨-, rfl⟩
    exact hs' hs
  refine ⟨h.sound.store ?_, h.typed.apply ?_, ?_, ?_⟩
  · rintro c' ⟨⟩
    exact hc
  · rintro c' ⟨⟩
    exact hkind
  · rintro d i ⟨hi, hport⟩
    rw [href _ _ id] at hport ⊢
    exact h.plugged d i ⟨hi, hport⟩
  · intro j d hj hplayer
    rw [href _ _ id] at hplayer
    obtain ⟨hattached, i, hi, hport⟩ := h.registered j d hj hplayer
    exact ⟨by rw [href _ _ id]; exact hattached, i, hi, by rw [href _ _ id]; exact hport⟩

/-- Blocks other than cores can go once nothing that stays leads to them. -/
theorem Linked.frees (h : Linked m) {bs : List Block} (hcores : ∀ i, .core i ∉ bs)
    (hout : ∀ b s c, s ≠ .core → m.live b = true → b ∉ bs → c ∈ bs → m.ref b s ≠ some c) :
    Linked (m.exec (Heap.frees bs)) := by
  have hplugged : ∀ d i, Plugged (m.exec (Heap.frees bs)) d i ↔ Plugged m d i := by
    intro d i
    rw [Plugged, Plugged, Heap.live_frees, Heap.ref_frees, and_iff_right (hcores i)]
  refine ⟨(Heap.sound_frees_iff h.sound bs).mpr hout, ?_, ?_, ?_⟩
  · intro b s c hc
    rw [Heap.ref_frees] at hc
    exact h.typed b s c hc
  · intro d i hd
    rw [Heap.ref_frees]
    exact h.plugged d i ((hplugged d i).mp hd)
  · intro j d hj hplayer
    rw [Heap.live_frees] at hj
    rw [Heap.ref_frees] at hplayer ⊢
    obtain ⟨hattached, i, hd⟩ := h.registered j d hj.2 hplayer
    exact ⟨hattached, i, (hplugged d i).mpr hd⟩

end Linked

theorem World.Inv.live_core {lost : Nat → Prop} {w : World} (h : w.Inv lost) {i : Nat} {o : Owned}
    (ho : w.handles.cores i = some o) : w.heap.live (.core i) = true :=
  h.owned (.core i) (by simp [Handles.owns, ho])

/-- A core that is there can be entered. -/
theorem Linked.enter_core {m : Memory} (h : Linked m) {i : Nat} (hi : m.live (.core i) = true) :
    m.Ok (.enter (.core i)) :=
  h.enter hi (by simp)

/-! ## New boxes -/

section Renew

variable {lost : Nat → Prop} {w : World} {i n : Nat} {o : Owned} {k : Box} {back : Ops}

/-- What is stored in the new box: nothing, or a pointer back to the core. -/
def Backs (i : Nat) (k : Box) (n : Nat) (back : Ops) : Prop :=
  back = [] ∨ back = [.store (.box i k n) .corePtr (some (.core i))]

/-- A new box, known to the core, while the old one is still there. -/
theorem attach_linked {m : Memory} (h : Linked m) (hcore : m.live (.core i) = true)
    (hfresh : m.live (.box i k n) = false) (hback : Backs i k n back) :
    m.Fine (.alloc (.box i k n) :: back ++
        [.store (.core i) (.box k) (some (.box i k n)), .enter (.core i)]) ∧
      Linked (m.exec (.alloc (.box i k n) :: back ++
        [.store (.core i) (.box k) (some (.box i k n)), .enter (.core i)])) := by
  have hnew := h.alloc hfresh
  have hbox : (m.apply (.alloc (.box i k n))).live (.box i k n) = true := by simp
  have hcore' : (m.apply (.alloc (.box i k n))).live (.core i) = true := by simp [hcore]
  rcases hback with rfl | rfl
  · have htold := hnew.store (.box i k n) trivial hbox
    exact ⟨⟨hfresh, ⟨hcore', by simp⟩, htold.enter_core hcore', trivial⟩, htold⟩
  · have hbacked := hnew.store (.corePtr i k n) trivial hcore'
    have htold := hbacked.store (.box i k n) trivial hbox
    exact ⟨⟨hfresh, ⟨hbox, by simp [hcore]⟩, ⟨hcore', by simp⟩, htold.enter_core hcore', trivial⟩,
      htold⟩

theorem renew_linked (h : w.Inv lost) (ho : w.handles.cores i = some o)
    (hback : Backs i k w.handles.next back) :
    w.heap.Fine (o.renew i k w.handles.next back) ∧
      Linked (w.heap.exec (o.renew i k w.handles.next back)) := by
  have hfresh : w.heap.live (.box i k w.handles.next) = false := by
    by_contra hlive
    have := h.numbered i k _ (by simpa using hlive)
    omega
  obtain ⟨hfine, hlinked⟩ := attach_linked h.linked (h.live_core ho) hfresh hback
  unfold Owned.renew
  rw [Heap.fine_append, Heap.exec_append _ _ (Heap.frees _)]
  cases hold : o.box k with
  | none => exact ⟨⟨hfine, trivial⟩, hlinked⟩
  | some m =>
      have hm : w.heap.live (.box i k m) = true :=
        h.owned (.box i k m) (by simp [Handles.owns, ho, hold])
      have hne : w.handles.next ≠ m := by
        have := h.numbered i k m hm
        omega
      refine ⟨⟨hfine, ?_, trivial⟩, ?_⟩
      · show (w.heap.exec _).live (.box i k m) = true
        rcases hback with rfl | rfl <;> simp [hm]
      · -- the core's slot leads to the new box now
        refine hlinked.frees (by simp) ?_
        intro b s c _ _ _ hgo
        obtain rfl : c = .box i k m := by simpa using hgo
        have hslot : (w.heap.exec (.alloc (.box i k w.handles.next) :: back ++
            [.store (.core i) (.box k) (some (.box i k w.handles.next)),
              .enter (.core i)])).ref (.core i) (.box k) = some (.box i k w.handles.next) := by
          rcases hback with rfl | rfl <;> simp
        exact Heap.unreferenced (fun _ _ => ref_box hlinked.typed) hslot (by simp [hne]) b s

theorem live_renew {h : Memory} (hback : Backs i k n back) (b : Block) :
    (h.exec (o.renew i k n back)).live b = true ↔
      (b = .box i k n ∨ h.live b = true) ∧ ∀ m, o.box k = some m → b ≠ .box i k m := by
  unfold Owned.renew
  rw [Heap.exec_append, Heap.live_frees]
  have hnew : (h.exec (.alloc (.box i k n) :: back ++
      [.store (.core i) (.box k) (some (.box i k n)), .enter (.core i)])).live b = true ↔
      b = .box i k n ∨ h.live b = true := by
    rcases hback with rfl | rfl <;> simp
  rw [hnew, and_comm]
  cases o.box k <;> simp

/-- What the program owns once the field is assigned. -/
theorem owns_renew {H : Handles} {o' : Owned} (ho : H.cores i = some o)
    (hk : o'.box k = some n) (hother : ∀ k', k' ≠ k → o'.box k' = o.box k')
    (hne : ∀ m, o.box k = some m → m ≠ n) (b : Block) :
    (H.setCore i (some o') (n + 1)).owns b = true ↔
      (b = .box i k n ∨ H.owns b = true) ∧ ∀ m, o.box k = some m → b ≠ .box i k m := by
  cases b with
  | core i' =>
      by_cases hi : i' = i
      · subst hi
        simp [Handles.owns, Handles.setCore, ho]
      · simp [Handles.owns, Handles.setCore, hi]
  | box i' k' m =>
      by_cases hi : i' = i
      · subst hi
        by_cases hk' : k' = k
        · subst hk'
          simp only [Handles.owns, Handles.setCore, Function.update_self, ho, Option.any_some, hk]
          grind
        · simp [Handles.owns, Handles.setCore, ho, hother k' hk', hk']
      · simp [Handles.owns, Handles.setCore, hi]
  | coordinator j => simp [Handles.owns, Handles.setCore]
  | driver d => simp [Handles.owns, Handles.setCore]
  | glue d => simp [Handles.owns, Handles.setCore]

theorem renew_inv (h : w.Inv lost) (ho : w.handles.cores i = some o)
    (hback : Backs i k w.handles.next back) {o' : Owned} (hk : o'.box k = some w.handles.next)
    (hother : ∀ k', k' ≠ k → o'.box k' = o.box k') :
    w.heap.Fine (o.renew i k w.handles.next back) ∧
      World.Inv lost ⟨w.heap.exec (o.renew i k w.handles.next back),
        w.handles.setCore i (some o') (w.handles.next + 1)⟩ := by
  obtain ⟨hfine, hlinked⟩ := renew_linked h ho hback
  have hne : ∀ m, o.box k = some m → m ≠ w.handles.next := by
    intro m hm
    have hlive := h.numbered i k m (h.owned _ (by simp [Handles.owns, ho, hm]))
    omega
  have howns := owns_renew ho hk hother hne
  refine ⟨hfine, ⟨hlinked, ?_, ?_, ?_, ?_⟩⟩
  · intro b hb
    rw [howns] at hb
    exact (live_renew hback b).mpr ⟨hb.1.imp_right (h.owned b), hb.2⟩
  · intro b hb
    obtain ⟨hnew | hold, hgone⟩ := (live_renew hback b).mp hb
    · exact .inl ((howns b).mpr ⟨.inl hnew, hgone⟩)
    · rcases h.accounted b hold with hown | hcore
      · exact .inl ((howns b).mpr ⟨.inr hown, hgone⟩)
      · exact .inr hcore
  · intro i' k' m hb
    show m < w.handles.next + 1
    obtain ⟨hnew | hold, -⟩ := (live_renew hback _).mp hb
    · cases hnew
      omega
    · have := h.numbered i' k' m hold
      omega
  · intro i' hi'
    obtain ⟨hnew | hold, -⟩ := (live_renew hback _).mp hi'
    · cases hnew
    · exact h.made i' hold

end Renew

/-! ## Traps -/

section Traps

variable {lost : Nat → Prop} {w : World} {i : Nat} {o : Owned}

theorem trapLoop_enters (seen addrs : List Word) :
    ∀ op ∈ (trapLoop i seen addrs).2, op = .enter (.core i) := by
  induction addrs generalizing seen with
  | nil => simp [trapLoop]
  | cons addr rest ih =>
      unfold trapLoop
      split
      · simp
      · simpa using ih (addr :: seen)

theorem trapLoop_done_iff (seen addrs : List Word) :
    (trapLoop i seen addrs).1 = .done ↔ addrs.Nodup ∧ ∀ a ∈ addrs, a ∉ seen := by
  induction addrs generalizing seen with
  | nil => simp [trapLoop]
  | cons addr rest ih =>
      unfold trapLoop
      split
      · rename_i hseen
        simp [hseen]
      · rename_i hfresh
        simp only [ih, List.nodup_cons, List.mem_cons]
        grind

/-- Another box number used up, and nothing else. -/
theorem World.Inv.skip (h : w.Inv lost) (ho : w.handles.cores i = some o) :
    World.Inv lost ⟨w.heap, w.handles.setCore i (some o) (w.handles.next + 1)⟩ := by
  have hcores : (w.handles.setCore i (some o) (w.handles.next + 1)).cores = w.handles.cores := by
    unfold Handles.setCore
    rw [← ho, Function.update_eq_self]
  have howns : (w.handles.setCore i (some o) (w.handles.next + 1)).owns = w.handles.owns := by
    funext b
    cases b <;> simp only [Handles.owns, hcores] <;> rfl
  refine ⟨h.linked, ?_, ?_, ?_, h.made⟩
  · rw [howns]
    exact h.owned
  · rw [howns]
    exact h.accounted
  · intro i' k m hb
    have := h.numbered i' k m hb
    show m < w.handles.next + 1
    omega

/-- Distinct addresses, or traps already: the component slot stays good. -/
theorem setTraps_inv (h : w.Inv lost) (ho : w.handles.cores i = some o) {addrs : List Word}
    (hkeeps : o.trapper = none → addrs.Nodup) :
    w.heap.Fine (o.setTraps i w.handles.next addrs).2.1 ∧
      World.Inv lost ⟨w.heap.exec (o.setTraps i w.handles.next addrs).2.1,
        w.handles.setCore i (some (o.setTraps i w.handles.next addrs).2.2)
          (w.handles.next + 1)⟩ := by
  cases htrapper : o.trapper with
  | some m =>
      simp only [Owned.setTraps, htrapper]
      exact ⟨trivial, h.skip ho⟩
  | none =>
      have hdone := (trapLoop_done_iff (i := i) [] addrs).mpr ⟨hkeeps htrapper, by simp⟩
      have henters := trapLoop_enters (i := i) [] addrs
      have hassigned : ∀ k', k' ≠ .trapper →
          { o with trapper := some w.handles.next }.box k' = o.box k' := by
        intro k' hk'
        cases k' with
        | trapper => exact absurd rfl hk'
        | _ => rfl
      obtain ⟨hfine, hinv⟩ := renew_inv h ho (.inr rfl) rfl hassigned
      have henter := hinv.linked.enter_core (hinv.owned (.core i)
        (by simp [Handles.owns, Handles.setCore]))
      cases hloop : trapLoop i [] addrs with
      | mk answer ops =>
          rw [hloop] at hdone henters
          cases hdone
          simp only [Owned.setTraps, htrapper, hloop]
          rw [Heap.fine_append, Heap.exec_append, Heap.exec_enters henters]
          exact ⟨⟨hfine, Heap.fine_enters henter henters⟩, hinv⟩

/-- A repeated address on a core without traps: the component slot is left
pointing to a freed box. -/
theorem setTraps_dangles (h : w.Inv lost) (ho : w.handles.cores i = some o) {addrs : List Word}
    (htrapper : o.trapper = none) (hdup : ¬ addrs.Nodup) :
    ¬ NoDangling (w.heap.exec (o.setTraps i w.handles.next addrs).2.1) := by
  have hnot : (trapLoop i [] addrs).1 ≠ .done := by
    intro hdone
    exact hdup ((trapLoop_done_iff [] addrs).mp hdone).1
  have henters := trapLoop_enters (i := i) [] addrs
  have hcore := h.live_core ho
  have hops : (o.setTraps i w.handles.next addrs).2.1 =
      o.renew i .trapper w.handles.next [.store (.box i .trapper w.handles.next) .corePtr
        (some (.core i))] ++ (trapLoop i [] addrs).2 ++
          Heap.frees [.box i .trapper w.handles.next] := by
    cases hloop : trapLoop i [] addrs with
    | mk answer ops =>
        rw [hloop] at hnot
        simp only [Owned.setTraps, htrapper, hloop]
  have hnone : o.box .trapper = none := htrapper
  intro hnone'
  have hgone := hnone' (.core i) (.box .trapper) (.box i .trapper w.handles.next)
  rw [hops, Heap.exec_append, Heap.live_frees, Heap.ref_frees, Heap.exec_append,
    Heap.exec_enters henters, Heap.live_frees] at hgone
  have hslot : (w.heap.exec (o.renew i .trapper w.handles.next [.store
      (.box i .trapper w.handles.next) .corePtr (some (.core i))])).ref (.core i) (.box .trapper) =
      some (.box i .trapper w.handles.next) := by
    unfold Owned.renew
    simp [hnone, Heap.frees]
  have hlive := (live_renew (i := i) (o := o) (h := w.heap) (k := .trapper)
    (n := w.handles.next) (.inr rfl) (.core i)).mpr ⟨.inr hcore, by simp⟩
  exact (hgone ⟨by simp, hlive⟩ hslot (by simp)).1 List.mem_cons_self

end Traps

/-! ## The trapper's view -/

section Trapper

variable {F H L S : Type} [DecidableEq L]

/-- The answer of a call that returns nothing. -/
def Answer.of : Except Fault Unit → Answer
  | .ok () => .done
  | .error f => .panicked f

/-- The two loops stop at the same address, with the same message. -/
theorem trapLoop_matches (bus : Bus L) (i : Nat) {seen : List Word} {traps : Traps H}
    (hseen : ∀ a, a ∈ seen ↔ a ∈ traps) (handlers : List (Word × H)) (mem : L → Half) :
    (trapLoop i seen (handlers.map Prod.fst)).1 =
      Answer.of ((patchLoop bus handlers traps mem).1.map fun _ => ()) := by
  induction handlers generalizing seen traps mem with
  | nil => rfl
  | cons p rest ih =>
      obtain ⟨addr, handler⟩ := p
      rw [List.map_cons, trapLoop, patchLoop]
      by_cases haddr : addr ∈ traps
      · rw [if_pos haddr, if_pos ((hseen addr).mpr haddr)]
        rfl
      · rw [if_neg haddr, if_neg ((hseen addr).not.mpr haddr)]
        refine ih ?_ _
        intro a
        rw [List.mem_cons, hseen, AList.mem_insert]

/-- On a core without traps both models of `set_traps` give the same answer,
and leave the component slot leading to an allocated box in the same cases. -/
theorem setTraps_matches (bus : Bus L) {oc : OwnedCore F H L S} (hoc : oc.trapper = none)
    {o : Owned} (ho : o.trapper = none) (h : Memory) (i n : Nat) (traps : List (Word × H)) :
    (o.setTraps i n (traps.map Prod.fst)).1 = Answer.of (oc.setTraps bus traps).1 ∧
      ((h.exec (o.setTraps i n (traps.map Prod.fst)).2.1).live (.box i .trapper n) = true ↔
        (oc.setTraps bus traps).2.core.registered ≠ none) := by
  have hempty : ∀ a, a ∈ ([] : List Word) ↔ a ∈ (∅ : Traps H) := by simp
  have hanswer := trapLoop_matches bus i hempty traps oc.core.mem
  have henters := trapLoop_enters (i := i) [] (traps.map Prod.fst)
  have hlive := (live_renew (i := i) (o := o) (h := h) (k := .trapper) (n := n) (.inr rfl)
    (.box i .trapper n)).mpr ⟨.inl rfl, by
      intro m hm
      rw [Owned.box, ho] at hm
      cases hm⟩
  cases hloop : trapLoop i [] (traps.map Prod.fst) with
  | mk answer ops =>
      rw [hloop] at hanswer henters
      cases hpatch : patchLoop bus traps ∅ oc.core.mem with
      | mk result mem =>
          cases result with
          | ok table =>
              rw [hpatch] at hanswer
              cases hanswer
              simp only [Owned.setTraps, ho, hloop, OwnedCore.setTraps, hoc, Trapper.new, hpatch]
              refine ⟨rfl, ?_⟩
              rw [Heap.exec_append, Heap.exec_enters henters]
              simp [hlive, Core.registered, Core.hook]
          | error f =>
              rw [hpatch] at hanswer
              cases hanswer
              simp only [Owned.setTraps, ho, hloop, OwnedCore.setTraps, hoc, Trapper.new, hpatch]
              refine ⟨rfl, ?_⟩
              rw [Heap.exec_append, Heap.live_frees]
              simp [Core.registered, Core.hook]

end Trapper

end MgbaRs.Lifetime
