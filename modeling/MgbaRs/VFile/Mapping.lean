import MgbaRs.Lib.Lts
import MgbaRs.VFile.Session

/-!
# Mappings as detached copies

`vfile_map` ignores its flags and hands out a private copy; `vfile_unmap`
writes the copy back over the front of the stream; `vfile_sync` does not look
at the copy at all. Two consequences, for any stream and any session around
the mapping:

* a mapping nobody wrote through is harmless to unmap exactly when the front
  of the stream is still what it was when the mapping was made, and the
  stream takes writes (`unmap_untouched_iff`);
* a `sync` that reports success has put the edits into the stream exactly
  when the edits changed nothing (`sync_durable_iff`).
-/

namespace MgbaRs

def MAP_READ : BitVec 32 := 1
def MAP_WRITE : BitVec 32 := 2

/-- The calls that use the mapping at `ptr`. -/
def Call.uses (ptr : Nat) : Call → Bool
  | .poke p _ _ => p == ptr
  | .unmap p => p == ptr
  | _ => false

/-- The calls that neither write to the stream nor give mappings back: reads,
seeks and stores through a mapping. -/
def Call.quiet : Call → Bool
  | .seek _ _ => true
  | .read _ => true
  | .poke _ _ _ => true
  | _ => false

/-- What a call makes of the buffer at `ptr`. -/
def Call.edit (ptr : Nat) (bytes : List Byte) : Call → List Byte
  | .poke p i b => if p = ptr then bytes.set i b else bytes
  | _ => bytes

theorem Call.length_edit (ptr : Nat) (bytes : List Byte) (c : Call) :
    (c.edit ptr bytes).length = bytes.length := by
  cases c with
  | poke p i b =>
      rw [Call.edit]
      split
      · exact List.length_set
      · rfl
  | _ => rfl

theorem Call.length_foldl_edit (ptr : Nat) (bytes : List Byte) (calls : List Call) :
    (calls.foldl (Call.edit ptr) bytes).length = bytes.length := by
  induction calls generalizing bytes with
  | nil => rfl
  | cons c rest ih => rw [List.foldl_cons, ih, Call.length_edit]

namespace Session

/-! ## A mapping nobody touches -/

/-- An outstanding mapping, at an address the allocator has passed. -/
structure Holds (ptr : Nat) (buf : Vec) (s : Session) : Prop where
  mapped : s.maps ptr = some buf
  old : ptr < s.next

theorem Holds.step {ptr : Nat} {buf : Vec} {s s' : Session} {c : Call}
    (h : Holds ptr buf s) (hstep : Step s c s') (hother : c.uses ptr = false) :
    Holds ptr buf s' := by
  obtain ⟨hmapped, hold⟩ := h
  rcases hstep.maps_cases with ⟨hmaps, hnext⟩ | ⟨new, hmaps, hnext⟩ |
    ⟨q, i, b, old, rfl, -, -, rfl⟩ | ⟨q, rfl, hmaps, hnext⟩
  · exact ⟨by rw [hmaps, hmapped], by omega⟩
  · exact ⟨by rw [hmaps, Function.update_of_ne (by omega), hmapped], by omega⟩
  · have hne : ptr ≠ q := by
      rintro rfl
      simp [Call.uses] at hother
    exact ⟨by rw [setMap_maps, Function.update_of_ne hne, hmapped], hold⟩
  · have hne : ptr ≠ q := by
      rintro rfl
      simp [Call.uses] at hother
    exact ⟨by rw [hmaps, Function.update_of_ne hne, hmapped], by omega⟩

theorem Holds.run {ptr : Nat} {buf : Vec} {s s' : Session} {calls : List Call}
    (hrun : Lts.Run Step s calls s') (hother : ∀ c ∈ calls, c.uses ptr = false)
    (h : Holds ptr buf s) : Holds ptr buf s' := by
  apply (hrun.restrict hother).invariant _ h
  intro s c s' h hstep
  exact h.step hstep.1 hstep.2

/-- A mapping just granted is outstanding. -/
theorem holds_addMap (s : Session) (buf : Vec) : Holds s.next buf (s.addMap buf) :=
  ⟨Function.update_self .., Nat.lt_succ_self _⟩

/-- Unmapping `ptr` succeeds and leaves the stream as it is. -/
def UnmapHarmless (s : Session) (ptr : Nat) : Prop :=
  ∃ s', Step s (.unmap ptr) s' ∧ s'.ops.contents = s.ops.contents ∧
    s'.ops.position = s.ops.position

/-- **Unmapping an untouched mapping.** Whatever the flags, the stream and
the calls made in between, it is harmless exactly when nothing was mapped, or
the stream takes writes and its first bytes are the ones that were mapped. -/
theorem unmap_untouched_iff {s₀ s₁ s₂ : Session} {n ptr : Nat} {flags : BitVec 32}
    {bytes : List Byte} {calls : List Call}
    (hmap : s₀.call (.map n flags) = .ok (.pointer (some (ptr, bytes)), s₁))
    (hrun : Lts.Run Step s₁ calls s₂) (hother : ∀ c ∈ calls, c.uses ptr = false) :
    UnmapHarmless s₂ ptr ↔ n = 0 ∨ (s₂.ops.writable = true ∧
      s₂.ops.contents.bytes.take n = s₀.ops.contents.bytes.take n) := by
  obtain ⟨hlen, rfl, -, rfl⟩ := call_map_granted hmap
  obtain ⟨hmapped, -⟩ := (holds_addMap s₀ (s₀.ops.contents.slice 0 n)).run hrun hother
  have hbytes : (s₀.ops.contents.slice 0 n).bytes = s₀.ops.contents.bytes.take n := rfl
  have htake : (s₀.ops.contents.bytes.take n).length = n := by
    rw [List.length_take]
    omega
  have hempty : s₀.ops.contents.bytes.take n = [] ↔ n = 0 := by
    rw [← List.length_eq_zero_iff, htake]
  have hsplice : s₂.ops.spliced (s₀.ops.contents.slice 0 n) = s₂.ops.contents ↔
      s₂.ops.contents.bytes.take n = s₀.ops.contents.bytes.take n := by
    rw [Vec.ext_iff]
    show Splice.overwrite 0 s₂.ops.contents.bytes 0 (s₀.ops.contents.bytes.take n) = _ ↔ _
    rw [Splice.overwrite_zero_eq_self_iff, htake]
  have hcall := call_unmap hmapped
  simp only [hbytes, hempty] at hcall
  constructor
  · rintro ⟨s₃, ⟨a, hstep⟩, hcontents, -⟩
    rw [hcall] at hstep
    split at hstep
    · rename_i hok
      cases hstep
      rcases hok with hzero | hw
      · exact Or.inl hzero
      · exact Or.inr ⟨hw, hsplice.mp (by simpa using hcontents)⟩
    · cases hstep
  · intro h
    have hok : n = 0 ∨ s₂.ops.writable = true := h.imp_right And.left
    have hsame : s₂.ops.contents.bytes.take n = s₀.ops.contents.bytes.take n := by
      rcases h with rfl | ⟨-, hsame⟩
      · simp
      · exact hsame
    rw [if_pos hok] at hcall
    exact ⟨_, ⟨_, hcall⟩, by simpa using hsplice.mpr hsame, by simp⟩

/-- A one-byte file opened read-only: unmapping what was mapped for reading
fails its assertion. -/
theorem unmap_readOnly_aborts :
    ∃ s₁, (init (fromFile ⟨[7], by decide⟩ false)).call (.map 1 MAP_READ) =
        .ok (.pointer (some (0, [7])), s₁) ∧
      s₁.call (.unmap 0) = .error .assertFailed ∧ ¬ UnmapHarmless s₁ 0 := by
  refine ⟨_, rfl, rfl, ?_⟩
  rintro ⟨s', ⟨a, hstep⟩, -, -⟩
  cases hstep

/-- The other way it fails: the byte is overwritten while it is mapped, and
the unmapping would bring the old one back. -/
theorem unmap_untouched_stale :
    ∃ s₁ s₂, (init (fromVec ⟨[7], by decide⟩)).call (.map 1 MAP_READ) =
        .ok (.pointer (some (0, [7])), s₁) ∧
      Lts.Run Step s₁ [.write [9]] s₂ ∧ ¬ UnmapHarmless s₂ 0 := by
  have hrun : ∃ s₁ s₂, (init (fromVec ⟨[7], by decide⟩)).call (.map 1 MAP_READ) =
        .ok (.pointer (some (0, [7])), s₁) ∧ Lts.Run Step s₁ [.write [9]] s₂ ∧
      s₂.ops.contents.bytes = [9] := ⟨_, _, rfl, .single ⟨_, rfl⟩, rfl⟩
  obtain ⟨s₁, s₂, hmap, hwrite, hnow⟩ := hrun
  refine ⟨s₁, s₂, hmap, hwrite, ?_⟩
  rw [unmap_untouched_iff hmap hwrite (by decide), hnow]
  rintro (h | ⟨-, h⟩)
  · exact absurd h (by decide)
  · exact absurd h (by decide)

/-! ## Edits and `sync` -/

/-- What a session of reads, seeks and stores has done when its stream was
`start` and its buffer at `ptr` held `bytes`. -/
structure Edited (start : VFileOps) (ptr : Nat) (bytes : List Byte) (s : Session) : Prop where
  stream : VFileOps.SameBytes start s.ops
  buffer : ∃ buf, s.maps ptr = some buf ∧ buf.bytes = bytes

theorem Edited.step {start : VFileOps} {ptr : Nat} {bytes : List Byte} {s s' : Session}
    {c : Call} (h : Edited start ptr bytes s) (hstep : Step s c s') (hquiet : c.quiet = true) :
    Edited start ptr (c.edit ptr bytes) s' := by
  obtain ⟨hstream, buf, hbuf, hbytes⟩ := h
  obtain ⟨a, hcall⟩ := hstep
  cases c with
  | seek offset whence =>
      rw [call] at hcall
      obtain ⟨r, ops, hrun, -, rfl⟩ := onStream_cases hcall
      exact ⟨hstream.trans (vfileSeek_sameBytes hrun), buf, hbuf, hbytes⟩
  | read size =>
      rw [call] at hcall
      obtain ⟨r, ops, hrun, -, rfl⟩ := onStream_cases hcall
      exact ⟨hstream.trans (vfileRead_sameBytes hrun), buf, hbuf, hbytes⟩
  | poke p i b =>
      obtain ⟨old, hold, -, rfl⟩ := call_poke_cases hcall
      refine ⟨hstream, ?_⟩
      by_cases hp : p = ptr
      · subst hp
        rw [hbuf] at hold
        cases hold
        refine ⟨buf.store i b, Function.update_self .., ?_⟩
        rw [Call.edit, if_pos rfl, ← hbytes]
        rfl
      · refine ⟨buf, ?_, ?_⟩
        · rw [setMap_maps, Function.update_of_ne (Ne.symm hp), hbuf]
        · rw [Call.edit, if_neg hp, hbytes]
  | write buffer => cases hquiet
  | truncate size => cases hquiet
  | size => cases hquiet
  | map size flags => cases hquiet
  | unmap p => cases hquiet
  | sync p flushed => cases hquiet

theorem Edited.run {start : VFileOps} {ptr : Nat} {bytes : List Byte} {s s' : Session}
    {calls : List Call} (hrun : Lts.Run Step s calls s')
    (hquiet : ∀ c ∈ calls, c.quiet = true) (h : Edited start ptr bytes s) :
    Edited start ptr (calls.foldl (Call.edit ptr) bytes) s' := by
  apply (hrun.restrict hquiet).foldl _ h
  intro bytes s c s' h hstep
  exact h.step hstep.1 hstep.2

/-- If `sync` of the mapping at `ptr` reports success, then the stream starts
with the mapped bytes, is otherwise unchanged, and what a close leaves behind
starts with them too. -/
def SyncDurable (s : Session) (ptr : Nat) (flushed : Bool) : Prop :=
  ∀ s' buf, s.call (.sync (some ptr) flushed) = .ok (.flag true, s') →
    s.maps ptr = some buf →
    s'.ops.contents.bytes.take buf.bytes.length = buf.bytes ∧
    s'.ops.contents.bytes.drop buf.bytes.length =
      s.ops.contents.bytes.drop buf.bytes.length ∧
    s'.ops.position = s.ops.position ∧
    ∀ left, (vfileClose s'.ops).2 = some left → left.bytes.take buf.bytes.length = buf.bytes

/-- Whether `sync` reports success. -/
def syncReports (s : Session) (flushed : Bool) : Bool :=
  match s.ops with
  | .cursor _ => true
  | .file _ => flushed

theorem call_sync (s : Session) (ptr : Nat) (flushed : Bool) :
    s.call (.sync (some ptr) flushed) = .ok (.flag (s.syncReports flushed), s) := by
  rw [call, onStream_of_run (vfileSync_run _ flushed s.ops)]
  rfl

theorem syncReports_of_sameBytes {s t : Session} (h : VFileOps.SameBytes s.ops t.ops)
    (flushed : Bool) : t.syncReports flushed = s.syncReports flushed := by
  unfold syncReports
  cases hs : s.ops <;> cases ht : t.ops <;> simp_all [VFileOps.SameBytes]

/-- A file that is closed leaves its contents behind; a vector leaves nothing. -/
theorem vfileClose_left {ops : VFileOps} {left : Vec} (h : (vfileClose ops).2 = some left) :
    left = ops.contents := by
  cases ops with
  | cursor c => cases h
  | file f =>
      cases h
      rfl

/-- **Syncing edits.** On any stream, after any reads, seeks and stores
through the mapping, a `sync` is durable exactly when it reports a failure or
the stores left the mapping as it was made. -/
theorem sync_durable_iff {s₀ s₁ s₂ : Session} {n ptr : Nat} {flags : BitVec 32}
    {bytes : List Byte} {calls : List Call} (flushed : Bool)
    (hmap : s₀.call (.map n flags) = .ok (.pointer (some (ptr, bytes)), s₁))
    (hrun : Lts.Run Step s₁ calls s₂) (hquiet : ∀ c ∈ calls, c.quiet = true) :
    SyncDurable s₂ ptr flushed ↔
      s₀.syncReports flushed = false ∨ calls.foldl (Call.edit ptr) bytes = bytes := by
  obtain ⟨hlen, rfl, rfl, rfl⟩ := call_map_granted hmap
  have hstart : Edited s₀.ops s₀.next (s₀.ops.contents.bytes.take n)
      (s₀.addMap (s₀.ops.contents.slice 0 n)) :=
    ⟨VFileOps.SameBytes.refl _, _, (holds_addMap s₀ _).mapped, rfl⟩
  obtain ⟨hsame, buf, hbuf, hbytes⟩ := hstart.run hrun hquiet
  have hcontents : s₂.ops.contents = s₀.ops.contents := hsame.contents
  have hbuflen : buf.bytes.length = n := by
    rw [hbytes, Call.length_foldl_edit, List.length_take]
    omega
  rw [← hbytes, ← syncReports_of_sameBytes (s := s₀) hsame]
  constructor
  · intro hdurable
    cases hreport : s₂.syncReports flushed with
    | false => exact Or.inl rfl
    | true =>
        have hcall := call_sync s₂ s₀.next flushed
        rw [hreport] at hcall
        obtain ⟨hfront, -⟩ := hdurable s₂ buf hcall hbuf
        rw [hcontents, hbuflen] at hfront
        exact Or.inr hfront.symm
  · rintro h s' buf' hcall hbuf'
    rw [call_sync, Except.ok.injEq, Prod.mk.injEq, Answer.flag.injEq] at hcall
    obtain ⟨hreport, rfl⟩ := hcall
    rw [hbuf] at hbuf'
    cases hbuf'
    have hkept : buf.bytes = s₀.ops.contents.bytes.take n := by
      rcases h with hno | hkept
      · rw [hreport] at hno
        cases hno
      · exact hkept
    have hfront : s₂.ops.contents.bytes.take buf.bytes.length = buf.bytes := by
      rw [hbuflen, hcontents, hkept]
    refine ⟨hfront, rfl, rfl, ?_⟩
    intro left hleft
    rw [vfileClose_left hleft, hfront]

/-- An in-memory file holding one zero byte: the byte is mapped, set to one
and synced. The sync reports success, and the file still holds zero. -/
theorem sync_loses_edit :
    ∃ s₁ s₂, (init (fromVec ⟨[0], by decide⟩)).call (.map 1 MAP_WRITE) =
        .ok (.pointer (some (0, [0])), s₁) ∧
      Lts.Run Step s₁ [.poke 0 0 1] s₂ ∧
      s₂.call (.sync (some 0) true) = .ok (.flag true, s₂) ∧
      s₂.ops.contents.bytes = [0] ∧ ¬ SyncDurable s₂ 0 true := by
  refine ⟨_, _, rfl, .single ⟨_, rfl⟩, rfl, rfl, ?_⟩
  intro hdurable
  exact absurd (hdurable _ _ rfl rfl).1 (by decide)

/-- With only reads in between, the same sync is durable. -/
theorem sync_durable_unedited :
    ∃ s₁ s₂, (init (fromVec ⟨[0], by decide⟩)).call (.map 1 MAP_WRITE) =
        .ok (.pointer (some (0, [0])), s₁) ∧
      Lts.Run Step s₁ [.read 1] s₂ ∧ SyncDurable s₂ 0 true := by
  have hrun : ∃ s₁ s₂, (init (fromVec ⟨[0], by decide⟩)).call (.map 1 MAP_WRITE) =
        .ok (.pointer (some (0, [0])), s₁) ∧ Lts.Run Step s₁ [.read 1] s₂ :=
    ⟨_, _, rfl, .single ⟨_, rfl⟩⟩
  obtain ⟨s₁, s₂, hmap, hread⟩ := hrun
  exact ⟨s₁, s₂, hmap, hread,
    (sync_durable_iff true hmap hread (by decide)).mpr (Or.inr rfl)⟩

end Session

end MgbaRs
