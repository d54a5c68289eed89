import Mathlib.Logic.Function.Basic
import MgbaRs.VFile.Model

/-!
# A `VFile` in use

What happens to one `VFile` between its creation and its close: the vtable
calls mGBA makes, in any order, and the edits it makes through the pointers
`map` gave it. A mapping is a heap buffer of its own, so the session keeps the
outstanding ones beside the stream; a pointer that is not outstanding must
not be used.
-/

namespace MgbaRs

inductive Call where
  | seek (offset : BitVec 64) (whence : BitVec 32)
  | read (size : Nat)
  | write (buffer : List Byte)
  | truncate (size : Nat)
  | size
  | map (size : Nat) (flags : BitVec 32)
  /-- mGBA stores a byte through a mapping. -/
  | poke (ptr i : Nat) (b : Byte)
  /-- `unmap` with the size the mapping was made with. -/
  | unmap (ptr : Nat)
  /-- `sync` of a mapping, or of nothing; `flushed` is the operating system's
  answer. -/
  | sync (ptr : Option Nat) (flushed : Bool)
deriving DecidableEq

inductive Answer where
  | unit
  | int (v : Int)
  /-- The answer of a read and the bytes it stored. -/
  | bytes (v : Int) (got : List Byte)
  /-- The pointer of a new mapping and the bytes it points at, or null. -/
  | pointer (p : Option (Nat × List Byte))
  | flag (b : Bool)
deriving DecidableEq

structure Session where
  ops : VFileOps
  /-- The outstanding mappings. -/
  maps : Nat → Option Vec
  /-- The next address the allocator hands out. -/
  next : Nat

namespace Session

def init (ops : VFileOps) : Session := ⟨ops, fun _ => none, 0⟩

/-- A vtable call that concerns the stream alone. -/
def onStream {α : Type} (s : Session) (run : VM α) (answer : α → Answer) :
    Except Fault (Answer × Session) :=
  (run s.ops).map fun (a, ops) => (answer a, { s with ops := ops })

/-- A new mapping at the next address. -/
def addMap (s : Session) (buf : Vec) : Session :=
  { s with maps := Function.update s.maps s.next (some buf), next := s.next + 1 }

def setMap (s : Session) (ptr : Nat) (buf : Option Vec) : Session :=
  { s with maps := Function.update s.maps ptr buf }

@[simp] theorem setMap_ops (s : Session) (ptr : Nat) (buf : Option Vec) :
    (s.setMap ptr buf).ops = s.ops := rfl

@[simp] theorem setMap_maps (s : Session) (ptr : Nat) (buf : Option Vec) :
    (s.setMap ptr buf).maps = Function.update s.maps ptr buf := rfl

def call (s : Session) : Call → Except Fault (Answer × Session)
  | .seek offset whence => s.onStream (vfileSeek offset whence) .int
  | .read size => s.onStream (vfileRead size) fun (v, got) => .bytes v got
  | .write buffer => s.onStream (vfileWrite buffer) .int
  | .truncate size => s.onStream (vfileTruncate size) fun _ => .unit
  | .size => s.onStream vfileSize .int
  | .map size flags =>
      (vfileMap size flags s.ops).map fun (mapped, ops) =>
        match mapped with
        | some buf => (.pointer (some (s.next, buf.bytes)), { s with ops := ops }.addMap buf)
        | none => (.pointer none, { s with ops := ops })
  | .poke ptr i b =>
      match s.maps ptr with
      | none => .error .badPointer
      | some buf =>
          if i < buf.bytes.length then .ok (.unit, s.setMap ptr (some (buf.store i b)))
          else .error .badPointer
  | .unmap ptr =>
      match s.maps ptr with
      | none => .error .badPointer
      | some buf =>
          (vfileUnmap buf s.ops).map fun (_, ops) =>
            (.unit, { s with ops := ops }.setMap ptr none)
  | .sync ptr flushed =>
      s.onStream (vfileSync ((ptr.bind s.maps).getD ⟨[], Nat.zero_le _⟩) flushed) .flag

/-- One call as a labelled step. -/
def Step (s : Session) (c : Call) (s' : Session) : Prop := ∃ a, s.call c = .ok (a, s')

theorem onStream_of_run {α : Type} {s : Session} {run : VM α} {answer : α → Answer} {a : α}
    {ops : VFileOps} (h : run s.ops = .ok (a, ops)) :
    s.onStream run answer = .ok (answer a, { s with ops := ops }) := by
  rw [onStream, h]
  rfl

/-! ## The calls that do not depend on the kind of stream -/

theorem call_size (s : Session) :
    s.call .size = .ok (.int s.ops.contents.bytes.length, s) :=
  onStream_of_run (vfileSize_run s.ops)

theorem call_map (s : Session) {size : Nat} (h : size ≤ isizeMax) (flags : BitVec 32) :
    s.call (.map size flags) = .ok
      (if size ≤ s.ops.contents.bytes.length then
        (.pointer (some (s.next, s.ops.contents.bytes.take size)),
          s.addMap (s.ops.contents.slice 0 size))
      else (.pointer none, s)) := by
  rw [call, vfileMap_run h]
  split <;> rfl

theorem call_poke {s : Session} {ptr i : Nat} {buf : Vec} (hbuf : s.maps ptr = some buf)
    (hi : i < buf.bytes.length) (b : Byte) :
    s.call (.poke ptr i b) = .ok (.unit, s.setMap ptr (some (buf.store i b))) := by
  simp only [call, hbuf, if_pos hi]

theorem call_unmap {s : Session} {ptr : Nat} {buf : Vec} (hbuf : s.maps ptr = some buf) :
    s.call (.unmap ptr) =
      if buf.bytes = [] ∨ s.ops.writable = true then
        .ok (.unit, { s with ops := s.ops.setContents (s.ops.spliced buf) }.setMap ptr none)
      else .error .assertFailed := by
  simp only [call, hbuf, vfileUnmap_run]
  split <;> rfl

/-! ## What a successful call must have done -/

/-- A call on the stream alone leaves the mappings alone. -/
theorem onStream_cases {α : Type} {s s' : Session} {run : VM α} {answer : α → Answer}
    {a : Answer} (h : s.onStream run answer = .ok (a, s')) :
    ∃ r ops, run s.ops = .ok (r, ops) ∧ a = answer r ∧ s' = { s with ops := ops } := by
  unfold onStream at h
  cases hrun : run s.ops with
  | error fault =>
      rw [hrun] at h
      cases h
  | ok p =>
      rw [hrun] at h
      cases h
      exact ⟨p.1, p.2, rfl, rfl, rfl⟩

/-- A mapping larger than any vector faults. -/
theorem call_map_fits {s s' : Session} {size : Nat} {flags : BitVec 32} {a : Answer}
    (h : s.call (.map size flags) = .ok (a, s')) : size ≤ isizeMax := by
  by_contra hbig
  have hfault : vfileMap size flags s.ops = .error .capacityOverflow := by
    have hzero : zeroedBuffer size (s.ops.moveTo 0) = .error .capacityOverflow := by
      rw [zeroedBuffer, if_neg hbig]
      rfl
    rw [vfileMap, VM.bind_of_ok (VFileOps.streamPosition_run s.ops), VM.unwrap_ok,
      VM.bind_of_ok (VFileOps.seek_start (VFileOps.seekable_of_le (Nat.zero_le _))),
      VM.assertOk_ok, VM.bind_of_error hzero]
  rw [call, hfault] at h
  cases h

/-- A mapping that was granted is a copy of the first bytes, at a new
address, and nothing else changed. -/
theorem call_map_granted {s s' : Session} {size : Nat} {flags : BitVec 32} {ptr : Nat}
    {bytes : List Byte}
    (h : s.call (.map size flags) = .ok (.pointer (some (ptr, bytes)), s')) :
    size ≤ s.ops.contents.bytes.length ∧ ptr = s.next ∧
      bytes = s.ops.contents.bytes.take size ∧
      s' = s.addMap (s.ops.contents.slice 0 size) := by
  rw [call_map s (call_map_fits h)] at h
  by_cases hlen : size ≤ s.ops.contents.bytes.length
  · rw [if_pos hlen] at h
    cases h
    exact ⟨hlen, rfl, rfl, rfl⟩
  · rw [if_neg hlen] at h
    cases h

theorem onStream_maps {α : Type} {s s' : Session} {run : VM α} {answer : α → Answer}
    {a : Answer} (h : s.onStream run answer = .ok (a, s')) :
    s'.maps = s.maps ∧ s'.next = s.next := by
  obtain ⟨r, ops, -, -, rfl⟩ := onStream_cases h
  exact ⟨rfl, rfl⟩

/-- A store that succeeded went to a place inside an outstanding mapping. -/
theorem call_poke_cases {s s' : Session} {ptr i : Nat} {b : Byte} {a : Answer}
    (h : s.call (.poke ptr i b) = .ok (a, s')) :
    ∃ buf, s.maps ptr = some buf ∧ i < buf.bytes.length ∧
      s' = s.setMap ptr (some (buf.store i b)) := by
  cases hbuf : s.maps ptr with
  | none =>
      simp only [call, hbuf] at h
      cases h
  | some buf =>
      by_cases hi : i < buf.bytes.length
      · rw [call_poke hbuf hi] at h
        cases h
        exact ⟨buf, rfl, hi, rfl⟩
      · simp only [call, hbuf, if_neg hi] at h
        cases h

/-- An unmapping that succeeded has put the buffer back at the front. -/
theorem call_unmap_cases {s s' : Session} {ptr : Nat} {a : Answer}
    (h : s.call (.unmap ptr) = .ok (a, s')) :
    ∃ buf, s.maps ptr = some buf ∧
      s' = { s with ops := s.ops.setContents (s.ops.spliced buf) }.setMap ptr none := by
  cases hbuf : s.maps ptr with
  | none =>
      simp only [call, hbuf] at h
      cases h
  | some buf =>
      rw [call_unmap hbuf] at h
      split at h
      · cases h
        exact ⟨buf, rfl, rfl⟩
      · cases h

/-- What a step does to the mappings: none, one more, or one changed. -/
theorem Step.maps_cases {s s' : Session} {c : Call} (h : Step s c s') :
    (s'.maps = s.maps ∧ s'.next = s.next) ∨
    (∃ buf, s'.maps = Function.update s.maps s.next (some buf) ∧ s'.next = s.next + 1) ∨
    (∃ ptr i b buf, c = .poke ptr i b ∧ s.maps ptr = some buf ∧ i < buf.bytes.length ∧
      s' = s.setMap ptr (some (buf.store i b))) ∨
    (∃ ptr, c = .unmap ptr ∧ s'.maps = Function.update s.maps ptr none ∧
      s'.next = s.next) := by
  obtain ⟨a, hcall⟩ := h
  cases c with
  -- first the calls on the stream alone
  | seek offset whence =>
      rw [call] at hcall
      exact Or.inl (onStream_maps hcall)
  | read size =>
      rw [call] at hcall
      exact Or.inl (onStream_maps hcall)
  | write buffer =>
      rw [call] at hcall
      exact Or.inl (onStream_maps hcall)
  | truncate size =>
      rw [call] at hcall
      exact Or.inl (onStream_maps hcall)
  | size =>
      rw [call] at hcall
      exact Or.inl (onStream_maps hcall)
  | sync ptr flushed =>
      rw [call] at hcall
      exact Or.inl (onStream_maps hcall)
  | map size flags =>
      -- granted or refused
      rw [call_map s (call_map_fits hcall)] at hcall
      split at hcall
      · cases hcall
        exact Or.inr (Or.inl ⟨_, rfl, rfl⟩)
      · cases hcall
        exact Or.inl ⟨rfl, rfl⟩
  | poke ptr i b =>
      obtain ⟨buf, hbuf, hi, rfl⟩ := call_poke_cases hcall
      exact Or.inr (Or.inr (Or.inl ⟨ptr, i, b, buf, rfl, hbuf, hi, rfl⟩))
  | unmap ptr =>
      obtain ⟨buf, -, rfl⟩ := call_unmap_cases hcall
      exact Or.inr (Or.inr (Or.inr ⟨ptr, rfl, rfl, rfl⟩))

end Session

end MgbaRs
