import MgbaRs.Lifetime.Boxes

/-!
# The link, and handles that come and go

A driver in a core's link port is known to the core and, once its player is
registered, to the coordinator; it leads back to its core. `Unplugs.spec` is
the point: whoever leaves a port is struck out, so that a registered player's
driver is always in some port, and a driver that is in none is known to
nobody. All of it is for any mGBA that does what is relied on
(`Mgba.Documented`).
-/

namespace MgbaRs.Lifetime

/-! ## The link -/

section Link

variable {m : Memory} {i : Nat} {p : Option Nat} {ops : Ops}

/-- What rewiring stores is of the right kind and between blocks that are
there. -/
theorem Rewires.store (h : Linked m) (hcore : m.live (.core i) = true)
    (hp : ∀ d, p = some d → m.live (.driver d) = true) {op : Heap.Op Block Slot}
    (hop : Rewires m i p op) :
    op.Typed Kind ∧ ∃ b s q, op = .store b s q ∧ m.live b = true ∧
      ∀ c, q = some c → m.live c = true := by
  have hleaving : ∀ d, m.ref (.core i) .sioDriver = some (.driver d) →
      m.live (.driver d) = true := fun d hd => h.live_of_plugged ⟨hcore, hd⟩
  have hattached : ∀ d j, m.live (.driver d) = true →
      m.ref (.driver d) .coordinator = some (.coordinator j) → m.live (.coordinator j) = true :=
    fun d j hd hj => h.sound _ _ _ (by simp) hd hj
  cases hop with
  | port =>
      refine ⟨?_, _, _, _, rfl, hcore, ?_⟩
      · intro c hc
        obtain ⟨d, -, rfl⟩ := Option.map_eq_some_iff.mp hc
        exact .sioDriver i d
      · intro c hc
        obtain ⟨d, hd, rfl⟩ := Option.map_eq_some_iff.mp hc
        exact hp d hd
  | @core d hd =>
      refine ⟨?_, _, _, _, rfl, hp d hd, ?_⟩
      · rintro c ⟨⟩
        exact .core d i
      · rintro c ⟨⟩
        exact hcore
  | @register d j hd hj =>
      refine ⟨?_, _, _, _, rfl, hattached d j (hp d hd) hj, ?_⟩
      · rintro c ⟨⟩
        exact .player j d
      · rintro c ⟨⟩
        exact hp d hd
  | forget hd => exact ⟨by rintro c ⟨⟩, _, _, _, rfl, hleaving _ hd, by rintro c ⟨⟩⟩
  | strike hd hj =>
      exact ⟨by rintro c ⟨⟩, _, _, _, rfl, hattached _ _ (hleaving _ hd) hj, by rintro c ⟨⟩⟩

/-- What is left of the link when core `i` has been rewired for `p`: the other
cores keep theirs, and who is registered is in another core or is `p`. -/
structure Rewired (m : Memory) (i : Nat) (p : Option Nat) (m' : Memory) : Prop where
  live : m'.live = m.live
  sound : m'.Sound (· = .core)
  typed : m'.Typed Kind
  others : ∀ d i', i' ≠ i → (Plugged m' d i' ↔ Plugged m d i')
  plugged : ∀ d i', i' ≠ i → Plugged m d i' → m'.ref (.driver d) .core = some (.core i')
  registered : ∀ j d, m.live (.coordinator j) = true →
    m'.ref (.coordinator j) (.player d) = some (.driver d) →
    m'.ref (.driver d) .coordinator = some (.coordinator j) ∧
      (p = some d ∨ ∃ i', i' ≠ i ∧ Plugged m d i')

theorem Unplugs.spec (h : Linked m) (hcore : m.live (.core i) = true)
    (hp : ∀ d, p = some d → m.live (.driver d) = true ∧ ∀ i', Plugged m d i' → i' = i)
    (hops : Unplugs m i p ops) : m.Fine ops ∧ Rewired m i p (m.exec ops) := by
  have hstores : m.Stores ops := fun op hop =>
    ((hops.stores op hop).store h hcore fun d hd => (hp d hd).1).2
  have htyped : (m.exec ops).Typed Kind := h.typed.exec fun op hop =>
    ((hops.stores op hop).store h hcore fun d hd => (hp d hd).1).1
  obtain ⟨hfine, hlive, hsound⟩ := h.sound.stores hstores
  have hport : ∀ i', i' ≠ i →
      (m.exec ops).ref (.core i') .sioDriver = m.ref (.core i') .sioDriver := by
    intro i' hi'
    refine Heap.ref_stores_of_not hstores fun q hq => ?_
    cases hops.stores _ hq
    exact hi' rfl
  have hattached : ∀ d, (m.exec ops).ref (.driver d) .coordinator =
      m.ref (.driver d) .coordinator := by
    intro d
    refine Heap.ref_stores_of_not hstores fun q hq => ?_
    cases hops.stores _ hq
  refine ⟨hfine, ⟨hlive, hsound, htyped, ?_, ?_, ?_⟩⟩
  · intro d i' hi'
    rw [Plugged, Plugged, hlive, hport i' hi']
  · intro d i' hi' hd
    rw [← h.plugged d i' hd]
    refine Heap.ref_stores_of_not hstores fun q hq => ?_
    cases hops.stores _ hq with
    | core hdp => exact hi' ((hp d hdp).2 i' hd)
    | forget hleaving => exact hi' (h.plugged_unique hd ⟨hcore, hleaving⟩)
  · intro j d hj hplayer
    rw [hattached]
    rcases Heap.ref_stores hstores (.coordinator j) (.player d) with hsame | hstored
    · -- registered before: in another core, or struck out
      rw [hsame] at hplayer
      obtain ⟨hjd, i', hd⟩ := h.registered j d hj hplayer
      refine ⟨hjd, ?_⟩
      by_cases hi' : i' = i
      · subst hi'
        by_contra hno
        rw [not_or] at hno
        exact hops.struck d j hd.2 hno.1 hjd (hsame.trans hplayer)
      · exact .inr ⟨i', hi', hd⟩
    · rw [hplayer] at hstored
      cases hops.stores _ hstored with
      | register hdp hjd => exact ⟨hjd, .inl hdp⟩

theorem Plugs.linked (h : Linked m) (hcore : m.live (.core i) = true)
    (hp : ∀ d, p = some d → m.live (.driver d) = true ∧ ∀ i', Plugged m d i' → i' = i)
    (hops : Plugs m i p ops) :
    m.Fine ops ∧ (m.exec ops).live = m.live ∧ Linked (m.exec ops) := by
  obtain ⟨hfine, hspec⟩ := hops.toUnplugs.spec h hcore hp
  have hcore' : (m.exec ops).live (.core i) = true := by rw [hspec.live, hcore]
  refine ⟨hfine, hspec.live, hspec.sound, hspec.typed, ?_, ?_⟩
  · intro d i' hd
    by_cases hi' : i' = i
    · subst hi'
      have hport := hops.port.symm.trans hd.2
      obtain ⟨d', hd', heq⟩ := Option.map_eq_some_iff.mp hport
      cases heq
      exact hops.core d hd'
    · exact hspec.plugged d i' hi' ((hspec.others d i' hi').mp hd)
  · intro j d hj hplayer
    rw [hspec.live] at hj
    obtain ⟨hattached, hdp | ⟨i', hi', hd⟩⟩ := hspec.registered j d hj hplayer
    · refine ⟨hattached, i, hcore', ?_⟩
      rw [hops.port, hdp]
      rfl
    · exact ⟨hattached, i', (hspec.others d i' hi').mpr hd⟩

end Link

section LinkCalls

variable {M : Mgba} {lost : Nat → Prop} {w : World} {i d : Nat} {o : Owned}

/-- The blocks `bs`, none of them a core or its box, come to be allocated and
owned. -/
theorem World.Inv.add (h : w.Inv lost) {heap : Memory} {H : Handles} (bs : List Block)
    (hlinked : Linked heap) (hlive : ∀ b, heap.live b = true ↔ b ∈ bs ∨ w.heap.live b = true)
    (howns : ∀ b, H.owns b = true ↔ b ∈ bs ∨ w.handles.owns b = true)
    (hnext : H.next = w.handles.next) (hmade : H.made = w.handles.made)
    (hbox : ∀ i k n, .box i k n ∉ bs) (hcore : ∀ i, .core i ∉ bs) :
    World.Inv lost ⟨heap, H⟩ := by
  refine ⟨hlinked, ?_, ?_, ?_, ?_⟩
  · intro b hb
    exact (hlive b).mpr (((howns b).mp hb).imp_right (h.owned b))
  · intro b hb
    rw [howns, or_assoc]
    exact ((hlive b).mp hb).imp_right (h.accounted b)
  · intro i k n hb
    show n < H.next
    rw [hnext]
    exact h.numbered i k n (((hlive _).mp hb).resolve_left (hbox i k n))
  · intro i hi
    show H.made i = true
    rw [hmade]
    exact h.made i (((hlive _).mp hi).resolve_left (hcore i))

/-- A call that only moves pointers. -/
theorem World.Inv.relink (h : w.Inv lost) {heap : Memory} (hlive : heap.live = w.heap.live)
    (hlinked : Linked heap) : World.Inv lost ⟨heap, w.handles⟩ := by
  refine h.add [] hlinked ?_ ?_ rfl rfl (by simp) (by simp)
  · intro b
    rw [hlive]
    simp
  · intro b
    simp

/-- Code entered, pointers moved, and code entered again. -/
theorem rewire_inv (h : w.Inv lost) (hcore : w.heap.live (.core i) = true) {p : Option Nat}
    (hp : ∀ d, p = some d → w.heap.live (.driver d) = true ∧ ∀ i', Plugged w.heap d i' → i' = i)
    {ops : Ops} (hops : Plugs w.heap i p ops) :
    w.heap.Fine ([.enter (.core i)] ++ ops ++ [.enter (.core i)]) ∧
      World.Inv lost ⟨w.heap.exec ([.enter (.core i)] ++ ops ++ [.enter (.core i)]),
        w.handles⟩ := by
  obtain ⟨hfine, hlive, hlinked⟩ := hops.linked h.linked hcore hp
  have hcore' : (w.heap.exec ops).live (.core i) = true := by rw [hlive, hcore]
  have hexec : w.heap.exec ([.enter (.core i)] ++ ops ++ [.enter (.core i)]) = w.heap.exec ops := by
    rw [Heap.exec_append, Heap.exec_append]
    rfl
  rw [hexec, Heap.fine_append, Heap.fine_append, Heap.exec_append]
  exact ⟨⟨⟨⟨h.linked.enter_core hcore, trivial⟩, hfine⟩, hlinked.enter_core hcore', trivial⟩,
    h.relink hlive hlinked⟩

/-- Installing a driver that is in no other core. -/
theorem install_inv (hM : M.Documented) (h : w.Inv lost) (hcore : w.heap.live (.core i) = true)
    (hd : w.heap.live (.driver d) = true) (honly : ∀ i', Plugged w.heap d i' → i' = i) :
    w.heap.Fine (Driver.install M w.heap d i) ∧
      World.Inv lost ⟨w.heap.exec (Driver.install M w.heap d i), w.handles⟩ := by
  refine rewire_inv h hcore ?_ (hM.setDriver w.heap i (some d))
  rintro d' ⟨⟩
  exact ⟨hd, honly⟩

theorem uninstall_inv (hM : M.Documented) (h : w.Inv lost)
    (hcore : w.heap.live (.core i) = true) :
    w.heap.Fine (Driver.uninstall M w.heap d i) ∧
      World.Inv lost ⟨w.heap.exec (Driver.uninstall M w.heap d i), w.handles⟩ := by
  unfold Driver.uninstall
  split
  · exact rewire_inv h hcore (by simp) (hM.setDriver w.heap i none)
  · exact ⟨trivial, h⟩

theorem reset_inv (hM : M.Documented) (h : w.Inv lost) (hcore : w.heap.live (.core i) = true) :
    w.heap.Fine (Owned.reset M w.heap i) ∧
      World.Inv lost ⟨w.heap.exec (Owned.reset M w.heap i), w.handles⟩ := by
  obtain ⟨p, hport⟩ : ∃ p : Option Nat, w.heap.ref (.core i) .sioDriver = p.map .driver := by
    cases hport : w.heap.ref (.core i) .sioDriver with
    | none => exact ⟨none, rfl⟩
    | some b =>
        cases h.linked.typed _ _ b hport
        exact ⟨some _, rfl⟩
  have hplugged : ∀ d, p = some d → Plugged w.heap d i := by
    rintro d rfl
    exact ⟨hcore, hport⟩
  refine rewire_inv h hcore ?_ (hM.reset w.heap i p hport ?_)
  · intro d hd
    exact ⟨h.linked.live_of_plugged (hplugged d hd),
      fun i' hi' => h.linked.plugged_unique hi' (hplugged d hd)⟩
  · exact fun d hd => h.linked.plugged d i (hplugged d hd)

end LinkCalls

/-! ## Coming and going -/

section Handles

variable {M : Mgba} {lost : Nat → Prop} {w : World} {i j d : Nat} {o : Owned}

theorem Owned.mem_boxes {b : Block} :
    b ∈ o.boxes i ↔ ∃ k n, o.box k = some n ∧ b = .box i k n := by
  unfold Owned.boxes
  constructor
  · intro hb
    obtain ⟨k, -, hk⟩ := List.mem_filterMap.mp hb
    obtain ⟨n, hn, rfl⟩ := Option.map_eq_some_iff.mp hk
    exact ⟨k, n, hn, rfl⟩
  · rintro ⟨k, n, hk, rfl⟩
    refine List.mem_filterMap.mpr ⟨k, by cases k <;> simp, ?_⟩
    rw [hk]
    rfl

theorem Owned.nodup_boxes : (o.boxes i).Nodup := by
  unfold Owned.boxes
  refine List.Nodup.filterMap ?_ (by decide)
  intro k k' b hb hb'
  obtain ⟨n, -, rfl⟩ := Option.map_eq_some_iff.mp hb
  obtain ⟨n', -, heq⟩ := Option.map_eq_some_iff.mp hb'
  cases heq
  rfl

/-- The blocks `bs` are freed and given up. -/
theorem World.Inv.remove (h : w.Inv lost) {heap : Memory} {H : Handles} (bs : List Block)
    (hlinked : Linked heap) (hlive : ∀ b, heap.live b = true ↔ b ∉ bs ∧ w.heap.live b = true)
    (howns : ∀ b, H.owns b = true ↔ b ∉ bs ∧ w.handles.owns b = true)
    (hnext : H.next = w.handles.next) (hmade : H.made = w.handles.made) :
    World.Inv lost ⟨heap, H⟩ := by
  refine ⟨hlinked, ?_, ?_, ?_, ?_⟩
  · intro b hb
    exact (hlive b).mpr (((howns b).mp hb).imp_right (h.owned b))
  · intro b hb
    obtain ⟨hstay, hold⟩ := (hlive b).mp hb
    rw [howns]
    exact (h.accounted b hold).imp_left fun hown => ⟨hstay, hown⟩
  · intro i k n hb
    show n < H.next
    rw [hnext]
    exact h.numbered i k n ((hlive _).mp hb).2
  · intro i hi
    show H.made i = true
    rw [hmade]
    exact h.made i ((hlive _).mp hi).2

/-- What is left to a program that has dropped a core. -/
theorem owns_drop {H : Handles} (ho : H.cores i = some o) (b : Block) :
    (H.setCore i none H.next).owns b = true ↔ b ∉ .core i :: o.boxes i ∧ H.owns b = true := by
  rw [List.mem_cons, Owned.mem_boxes]
  cases b with
  | core i' =>
      by_cases hi : i' = i
      · subst hi
        simp [Handles.owns, Handles.setCore]
      · simp [Handles.owns, Handles.setCore, hi]
  | box i' k n =>
      by_cases hi : i' = i
      · subst hi
        simp [Handles.owns, Handles.setCore, ho]
      · simp [Handles.owns, Handles.setCore, hi]
  | _ => simp [Handles.owns, Handles.setCore]

/-- Nothing that stays points to a core that goes or to its boxes, but for the
driver it leaves behind. -/
theorem unreferenced_drop {h : Memory} (ht : h.Typed Kind)
    (hboxes : ∀ k n, h.live (.box i k n) = true → o.box k = some n) {b c : Block} {s : Slot}
    (hs : s ≠ .core) (hb : h.live b = true) (hstay : b ∉ .core i :: o.boxes i)
    (hgo : c ∈ .core i :: o.boxes i) : h.ref b s ≠ some c := by
  intro hc
  rcases List.mem_cons.mp hgo with rfl | hgo
  · -- from one of its own boxes only
    cases ht b s _ hc with
    | core d => exact hs rfl
    | corePtr _ k n =>
        exact hstay (List.mem_cons_of_mem _ (Owned.mem_boxes.mpr ⟨k, n, hboxes k n hb, rfl⟩))
  · obtain ⟨k, n, -, rfl⟩ := Owned.mem_boxes.mp hgo
    obtain ⟨rfl, -⟩ := ref_box ht hc
    exact hstay List.mem_cons_self

/-- The core and its boxes go once its port has been given up. -/
theorem linked_drop {m m' : Memory} (hspec : Rewired m i none m')
    (hboxes : ∀ k n, m.live (.box i k n) = true → o.box k = some n) :
    Linked (m'.exec (Heap.frees (.core i :: o.boxes i))) := by
  have hfreed : ∀ d i', Plugged (m'.exec (Heap.frees (.core i :: o.boxes i))) d i' ↔
      i' ≠ i ∧ Plugged m' d i' := by
    intro d i'
    rw [Plugged, Plugged, Heap.live_frees, Heap.ref_frees, List.mem_cons, Owned.mem_boxes,
      and_assoc]
    simp
  refine ⟨(Heap.sound_frees_iff hspec.sound _).mpr ?_, ?_, ?_, ?_⟩
  · intro b s c hs hb hstay hgo
    refine unreferenced_drop hspec.typed ?_ hs hb hstay hgo
    rw [hspec.live]
    exact hboxes
  · intro b s c hc
    rw [Heap.ref_frees] at hc
    exact hspec.typed b s c hc
  · intro d i' hd
    obtain ⟨hi', hd⟩ := (hfreed d i').mp hd
    rw [Heap.ref_frees]
    exact hspec.plugged d i' hi' ((hspec.others d i' hi').mp hd)
  · -- the registered players are in the ports of other cores
    intro j d hj hplayer
    rw [Heap.live_frees, hspec.live] at hj
    rw [Heap.ref_frees] at hplayer ⊢
    obtain ⟨hattached, hnone | ⟨i', hi', hd⟩⟩ := hspec.registered j d hj.2 hplayer
    · cases hnone
    · exact ⟨hattached, i', (hfreed d i').mpr ⟨hi', (hspec.others d i' hi').mpr hd⟩⟩

theorem drop_inv (hM : M.Documented) (h : w.Inv lost) (ho : w.handles.cores i = some o) :
    w.heap.Fine (o.drop M w.heap i) ∧
      World.Inv lost ⟨w.heap.exec (o.drop M w.heap i),
        w.handles.setCore i none w.handles.next⟩ := by
  have hcore := h.live_core ho
  obtain ⟨hfine, hspec⟩ := (hM.deinit w.heap i).spec h.linked hcore (by simp)
  have howned : ∀ b ∈ .core i :: o.boxes i, (w.heap.exec (M.deinit w.heap i)).live b = true := by
    intro b hb
    rw [hspec.live]
    apply h.owned
    rcases List.mem_cons.mp hb with rfl | hb
    · simp [Handles.owns, ho]
    · obtain ⟨k, n, hk, rfl⟩ := Owned.mem_boxes.mp hb
      simp [Handles.owns, ho, hk]
  have hboxes : ∀ k n, w.heap.live (.box i k n) = true → o.box k = some n := by
    intro k n hlive
    rcases h.accounted _ hlive with hown | ⟨i', -, hi'⟩
    · simpa [Handles.owns, ho] using hown
    · cases hi'
  have hops : w.heap.exec (o.drop M w.heap i) =
      (w.heap.exec (M.deinit w.heap i)).exec (Heap.frees (.core i :: o.boxes i)) := by
    show w.heap.exec (M.deinit w.heap i ++ Heap.frees (.core i :: o.boxes i)) = _
    rw [Heap.exec_append]
  have hnodup : (Block.core i :: o.boxes i).Nodup := by
    refine List.nodup_cons.mpr ⟨?_, Owned.nodup_boxes⟩
    intro hmem
    obtain ⟨k, n, -, hcore⟩ := Owned.mem_boxes.mp hmem
    cases hcore
  constructor
  · have henter := h.linked.enter_core hcore
    refine ⟨henter, henter, ?_⟩
    exact Heap.fine_append.mpr ⟨hfine, Heap.fine_frees hnodup howned⟩
  · rw [hops]
    refine h.remove (.core i :: o.boxes i) (linked_drop hspec hboxes) ?_ (owns_drop ho) rfl rfl
    intro b
    rw [Heap.live_frees, hspec.live]

/-- What is owned when core `i` gets a handle, or none. -/
theorem owns_newGba {H : Handles} {v : Option Owned} (hnone : H.cores i = none)
    (hv : v = none ∨ v = some ⟨none, none, none⟩) (b : Block) :
    ((H.setCore i v H.next).make i).owns b = true ↔
      (b = .core i ∧ v.isSome = true) ∨ H.owns b = true := by
  cases b with
  | core i' =>
      by_cases hi : i' = i
      · subst hi
        simp [Handles.owns, Handles.setCore, Handles.make, hnone]
      · simp [Handles.owns, Handles.setCore, Handles.make, hi]
  | box i' k n =>
      by_cases hi : i' = i
      · subst hi
        rcases hv with rfl | rfl <;> cases k <;>
          simp [Handles.owns, Handles.setCore, Handles.make, hnone, Owned.box]
      · simp [Handles.owns, Handles.setCore, Handles.make, hi]
  | _ => simp [Handles.owns, Handles.setCore, Handles.make]

theorem newGba_inv (h : w.Inv lost) (hunused : w.handles.made i ≠ true) (created : Bool)
    (configName : List Byte) :
    w.heap.Fine (Owned.newGba i created configName).2.1 ∧
      World.Inv (fun i' => lost i' ∨ (Call.newGba i created configName).Loses i')
        ⟨w.heap.exec (Owned.newGba i created configName).2.1,
          (w.handles.setCore i (Owned.newGba i created configName).2.2
            w.handles.next).make i⟩ := by
  have hfresh : w.heap.live (.core i) = false := by
    by_contra hlive
    exact hunused (h.made i (by simpa using hlive))
  have hnone : w.handles.cores i = none := by
    by_contra hsome
    obtain ⟨o, ho⟩ := Option.ne_none_iff_exists'.mp hsome
    rw [h.live_core ho] at hfresh
    cases hfresh
  have hlinked := h.linked.alloc hfresh
  have henter := hlinked.enter_core (i := i) (by simp)
  have hmade : ∀ i', (w.heap.apply (.alloc (.core i))).live (.core i') = true →
      Function.update w.handles.made i true i' = true := by
    intro i' hi'
    by_cases hi : i' = i
    · rw [hi, Function.update_self]
    · rw [Function.update_of_ne hi]
      exact h.made i' (by simpa [hi] using hi')
  unfold Owned.newGba
  split
  · -- no core, no handle
    have howns := owns_newGba hnone (v := none) (.inl rfl)
    refine ⟨trivial, h.linked, ?_, ?_, h.numbered, ?_⟩
    · intro b hb
      exact h.owned b (by simpa using (howns b).mp hb)
    · intro b hb
      rw [howns]
      exact ((h.mono fun _ => .inl).accounted b hb).imp_left .inr
    · intro i' hi'
      have hold : w.heap.live (.core i') = true := hi'
      exact hmade i' (by simp [hold])
  · rename_i hcreated
    cases hname : CString.new configName with
    | error e =>
        -- a core, and nobody to drop it
        have howns := owns_newGba hnone (v := none) (.inl rfl)
        refine ⟨⟨hfresh, henter, trivial⟩, hlinked, ?_, ?_, ?_, hmade⟩
        · intro b hb
          have hold := h.owned b (by simpa using (howns b).mp hb)
          simp [hold]
        · intro b hb
          rw [howns]
          rcases (by simpa using hb : b = .core i ∨ w.heap.live b = true) with rfl | hb
          · refine .inr ⟨i, .inr ⟨rfl, by simpa using hcreated, ?_⟩, rfl⟩
            by_contra hnul
            rw [CString.new, dif_neg hnul] at hname
            cases hname
          · exact ((h.mono fun _ => .inl).accounted b hb).imp_left .inr
        · intro i' k n hb
          exact h.numbered i' k n (by simpa using hb)
    | ok name =>
        have howns := owns_newGba hnone (v := some ⟨none, none, none⟩) (.inr rfl)
        refine ⟨⟨hfresh, henter, henter, trivial⟩, hlinked, ?_, ?_, ?_, hmade⟩
        · intro b hb
          rcases (howns b).mp hb with ⟨rfl, -⟩ | hold
          · simp
          · simp [h.owned b hold]
        · intro b hb
          rw [howns]
          rcases (by simpa using hb : b = .core i ∨ w.heap.live b = true) with rfl | hb
          · exact .inl (.inl ⟨rfl, rfl⟩)
          · exact ((h.mono fun _ => .inl).accounted b hb).imp_left .inr
        · intro i' k n hb
          exact h.numbered i' k n (by simpa using hb)

/-- Only cores can be allocated without a handle. -/
theorem World.Inv.dead (h : w.Inv lost) {b : Block} (hb : w.handles.owns b = false)
    (hcore : ∀ i, b ≠ .core i) : w.heap.live b = false := by
  by_contra hlive
  rcases h.accounted b (by simpa using hlive) with hown | ⟨i, -, hi⟩
  · rw [hb] at hown
    cases hown
  · exact hcore i hi

/-- What a new or a dropped coordinator changes about the handles. -/
theorem owns_setCoordinator (H : Handles) (v : Bool) (b : Block) :
    (H.setCoordinator j v).owns b = if b = .coordinator j then v else H.owns b := by
  cases b with
  | coordinator j' =>
      by_cases hj : j' = j
      · subst hj
        simp [Handles.owns, Handles.setCoordinator]
      · simp [Handles.owns, Handles.setCoordinator, hj]
  | _ => simp [Handles.owns, Handles.setCoordinator]

theorem newCoordinator_inv (h : w.Inv lost) (hfresh : w.handles.coordinators j = false) :
    w.heap.Fine [.alloc (.coordinator j), .enter (.coordinator j)] ∧
      World.Inv lost ⟨w.heap.exec [.alloc (.coordinator j), .enter (.coordinator j)],
        w.handles.setCoordinator j true⟩ := by
  have hdead : w.heap.live (.coordinator j) = false := h.dead hfresh (by simp)
  have hlinked := h.linked.alloc hdead
  refine ⟨⟨hdead, hlinked.enter (by simp) (by simp), trivial⟩,
    h.add [.coordinator j] hlinked (by simp) ?_ rfl rfl (by simp) (by simp)⟩
  intro b
  rw [owns_setCoordinator]
  by_cases hb : b = Block.coordinator j <;> simp [hb]

/-- A coordinator no driver is attached to can go. -/
theorem dropCoordinator_inv (h : w.Inv lost) (hj : w.handles.coordinators j = true)
    (hkeeps : ∀ d, w.heap.live (.driver d) = true →
      w.heap.ref (.driver d) .coordinator ≠ some (.coordinator j)) :
    w.heap.Fine [.enter (.coordinator j), .free (.coordinator j)] ∧
      World.Inv lost ⟨w.heap.exec [.enter (.coordinator j), .free (.coordinator j)],
        w.handles.setCoordinator j false⟩ := by
  have hlive : w.heap.live (.coordinator j) = true := h.owned (.coordinator j) hj
  have hlinked : Linked (w.heap.exec (Heap.frees [.coordinator j])) := by
    refine h.linked.frees (by simp) ?_
    intro b s c hs hb _ hgo hc
    obtain rfl := List.mem_singleton.mp hgo
    cases h.linked.typed b s _ hc
    exact hkeeps _ hb hc
  refine ⟨⟨h.linked.enter hlive (by simp), hlive, trivial⟩,
    h.remove [.coordinator j] hlinked ?_ ?_ rfl rfl⟩
  · intro b
    exact Heap.live_frees (h := w.heap) [.coordinator j] b
  · intro b
    rw [owns_setCoordinator]
    by_cases hb : b = Block.coordinator j <;> simp [hb]

/-- What a new or a dropped driver changes about the handles. -/
theorem owns_setDriver (H : Handles) (v : Bool) (b : Block) :
    (H.setDriver d v).owns b = if b = .driver d ∨ b = .glue d then v else H.owns b := by
  cases b with
  | driver d' =>
      by_cases hd : d' = d
      · subst hd
        simp [Handles.owns, Handles.setDriver]
      · simp [Handles.owns, Handles.setDriver, hd]
  | glue d' =>
      by_cases hd : d' = d
      · subst hd
        simp [Handles.owns, Handles.setDriver]
      · simp [Handles.owns, Handles.setDriver, hd]
  | _ => simp [Handles.owns, Handles.setDriver]

/-- Attaching a driver for which nobody is registered yet. -/
theorem Linked.attach {m : Memory} (h : Linked m) (hj : m.live (.coordinator j) = true)
    (hnew : ∀ j', m.live (.coordinator j') = true →
      m.ref (.coordinator j') (.player d) ≠ some (.driver d)) :
    Linked (m.apply (.store (.driver d) .coordinator (some (.coordinator j)))) := by
  refine ⟨h.sound.store ?_, h.typed.apply ?_, ?_, ?_⟩
  · rintro c ⟨⟩
    exact hj
  · rintro c ⟨⟩
    exact .coordinator d j
  · rintro d' i' ⟨hi', hport⟩
    rw [Heap.ref_store, if_neg (by simp)] at hport ⊢
    exact h.plugged d' i' ⟨hi', hport⟩
  · intro j' d' hj' hplayer
    rw [Heap.ref_store, if_neg (by simp)] at hplayer
    obtain ⟨hattached, i', hi', hport⟩ := h.registered j' d' hj' hplayer
    have hne : d' ≠ d := by
      rintro rfl
      exact hnew j' hj' hplayer
    refine ⟨?_, i', hi', ?_⟩
    · rw [Heap.ref_store, if_neg (by simp [hne])]
      exact hattached
    · rw [Heap.ref_store, if_neg (by simp)]
      exact hport

theorem newDriver_inv (h : w.Inv lost) (hfresh : w.handles.drivers d = false)
    (hj : w.handles.coordinators j = true) :
    w.heap.Fine (Driver.new d j) ∧
      World.Inv lost ⟨w.heap.exec (Driver.new d j), w.handles.setDriver d true⟩ := by
  have hglue : w.heap.live (.glue d) = false := h.dead hfresh (by simp)
  have hdriver : w.heap.live (.driver d) = false := h.dead hfresh (by simp)
  have hlive : w.heap.live (.coordinator j) = true := h.owned (.coordinator j) hj
  have hmade := (h.linked.alloc hglue).alloc (b := .driver d) (by simp [hdriver])
  have hglued := hmade.store (.user d) trivial (by simp)
  have hlinked : Linked (w.heap.exec (Driver.new d j)) := by
    refine hglued.attach (by simp [hlive]) ?_
    intro j' hj' hplayer
    have hgone := h.linked.sound (.coordinator j') (.player d) (.driver d) (by simp)
      (by simpa using hj') (by simpa using hplayer)
    rw [hdriver] at hgone
    cases hgone
  have hcore : (w.heap.exec (Driver.new d j)).ref (.driver d) .core = none := by
    simp [Driver.new]
  refine ⟨⟨hglue, by simp [Heap.Ok, hdriver], by simp [Heap.Ok], by simp [Heap.Ok, hlive], ?_,
    trivial⟩, h.add [.glue d, .driver d] hlinked ?_ ?_ rfl rfl (by simp) (by simp)⟩
  · refine hlinked.enter (by simp [Driver.new]) ?_
    rintro d' i ⟨⟩ hi
    rw [hcore] at hi
    cases hi
  · intro b
    simp [Driver.new, or_left_comm, or_assoc]
  · intro b
    rw [owns_setDriver]
    by_cases hb : b = .driver d ∨ b = .glue d
    · simp [hb, or_comm]
    · simp only [not_or] at hb
      simp [hb.1, hb.2]

/-- A driver no core has in its link port can go. -/
theorem dropDriver_inv (h : w.Inv lost) (hd : w.handles.drivers d = true)
    (hkeeps : ∀ i, ¬ Plugged w.heap d i) :
    w.heap.Fine (Heap.frees [.driver d, .glue d]) ∧
      World.Inv lost ⟨w.heap.exec (Heap.frees [.driver d, .glue d]),
        w.handles.setDriver d false⟩ := by
  have hdriver : w.heap.live (.driver d) = true := h.owned (.driver d) hd
  have hglue : w.heap.live (.glue d) = true := h.owned (.glue d) hd
  refine ⟨Heap.fine_frees (by simp) (by simp [hdriver, hglue]),
    h.remove [.driver d, .glue d] ?_ (Heap.live_frees _) ?_ rfl rfl⟩
  · refine h.linked.frees (by simp) ?_
    intro b s c _ hb hstay hgo hc
    simp only [List.mem_cons, List.not_mem_nil, or_false] at hstay hgo
    rcases hgo with rfl | rfl
    · cases h.linked.typed b s _ hc with
      | sioDriver i => exact hkeeps i ⟨hb, hc⟩
      | player j =>
          -- a registered player is in some port
          obtain ⟨-, i, hi⟩ := h.linked.registered j d hb hc
          exact hkeeps i hi
    · cases h.linked.typed b s _ hc with
      | user => exact hstay (.inl rfl)
  · intro b
    rw [owns_setDriver]
    by_cases hb : b = .driver d ∨ b = .glue d
    · simp [hb]
    · simp only [not_or] at hb
      simp [hb.1, hb.2]

end Handles

end MgbaRs.Lifetime
