import MgbaRs.Lib.Lts
import MgbaRs.VFile.Seek
import MgbaRs.VFile.Session

/-!
# The in-memory `VFile` is a plain byte file

`ByteFile` is what a caller of the vtable thinks it talks to: some contents,
a position, and private copies handed out by `map`. It has no cursor to put
back, no casts and no bound on sizes.

`fromVec_refines` compares a whole session on a `VFile` made by `from_vec`
with the reference, answer by answer. A session is `Permitted` when every
seek asks for a representable target, every write writes something, only
outstanding mappings are used, and no vector is asked to outgrow
`isize::MAX`.
-/

namespace MgbaRs

/-- The reference: contents, position, outstanding mappings. -/
structure ByteFile where
  contents : List Byte
  position : Nat
  maps : Nat → Option (List Byte)
  next : Nat

namespace ByteFile

def init (contents : List Byte) : ByteFile := ⟨contents, 0, fun _ => none, 0⟩

/-- Where a seek goes. -/
def target (f : ByteFile) (offset : BitVec 64) (whence : BitVec 32) : Option Int :=
  if whence = SEEK_SET then some offset.toInt
  else if whence = SEEK_CUR then some (f.position + offset.toInt)
  else if whence = SEEK_END then some (f.contents.length + offset.toInt)
  else none

def call (f : ByteFile) : Call → Answer × ByteFile
  | .seek offset whence =>
      match f.target offset whence with
      | some t => (.int t, { f with position := t.toNat })
      | none => (.int (-1), f)
  | .read size =>
      let count := min size (f.contents.length - f.position)
      (.bytes count ((f.contents.drop f.position).take count),
        { f with position := f.position + count })
  | .write buffer =>
      (.int buffer.length,
        { f with
          contents := Splice.overwrite 0 f.contents f.position buffer
          position := f.position + buffer.length })
  | .truncate size => (.unit, { f with contents := Splice.resize 0 f.contents size })
  | .size => (.int f.contents.length, f)
  | .map size _ =>
      if size ≤ f.contents.length then
        (.pointer (some (f.next, f.contents.take size)),
          { f with
            maps := Function.update f.maps f.next (some (f.contents.take size))
            next := f.next + 1 })
      else (.pointer none, f)
  | .poke ptr i b =>
      (.unit, { f with
        maps := Function.update f.maps ptr ((f.maps ptr).map fun buf => buf.set i b) })
  | .unmap ptr =>
      (.unit, { f with
        contents := Splice.overwrite 0 f.contents 0 ((f.maps ptr).getD [])
        maps := Function.update f.maps ptr none })
  | .sync _ _ => (.flag true, f)

/-- The calls the comparison covers. -/
def Permitted (f : ByteFile) : Call → Prop
  | .seek offset whence =>
      match f.target offset whence with
      | some t => 0 ≤ t ∧ t ≤ isizeMax
      | none => True
  | .read _ => True
  | .write buffer => buffer ≠ [] ∧ f.position + buffer.length ≤ isizeMax
  | .truncate size => size ≤ isizeMax
  | .size => True
  | .map size _ => size ≤ isizeMax
  | .poke ptr i _ => ∃ buf, f.maps ptr = some buf ∧ i < buf.length
  | .unmap ptr => ∃ buf, f.maps ptr = some buf
  | .sync _ _ => True

end ByteFile

/-- The session's stream is a cursor over the reference's contents, at its
position, and the outstanding mappings hold the same bytes. -/
structure Represents (s : Session) (f : ByteFile) (c : Cursor) : Prop where
  stream : s.ops = .cursor c
  contents : c.inner.bytes = f.contents
  position : c.pos.toNat = f.position
  maps : ∀ ptr, (s.maps ptr).map Vec.bytes = f.maps ptr
  next : s.next = f.next

namespace Represents

variable {s : Session} {f : ByteFile} {c : Cursor}

theorem init (v : Vec) :
    Represents (Session.init (fromVec v)) (ByteFile.init v.bytes) (Cursor.new v) :=
  ⟨rfl, rfl, rfl, fun _ => rfl, rfl⟩

theorem ops_contents (h : Represents s f c) : s.ops.contents.bytes = f.contents := by
  rw [h.stream]
  exact h.contents

theorem target (h : Represents s f c) (offset : BitVec 64) (whence : BitVec 32) :
    seekTarget c offset whence = f.target offset whence := by
  unfold seekTarget ByteFile.target
  rw [h.contents, h.position]

/-- A call that moves only the stream keeps the mappings in step. -/
theorem withStream (h : Represents s f c) (c' : Cursor) {f' : ByteFile}
    (hcontents : c'.inner.bytes = f'.contents) (hposition : c'.pos.toNat = f'.position)
    (hmaps : f'.maps = f.maps) (hnext : f'.next = f.next) :
    Represents { s with ops := .cursor c' } f' c' :=
  ⟨rfl, hcontents, hposition, fun ptr => by rw [hmaps]; exact h.maps ptr,
    h.next.trans hnext.symm⟩

end Represents

/-- A new value for one mapping, on both sides. -/
theorem Represents.setMap {s : Session} {f : ByteFile} {c : Cursor} (h : Represents s f c)
    (ptr : Nat) (buf : Option Vec) :
    Represents (s.setMap ptr buf)
      { f with maps := Function.update f.maps ptr (buf.map Vec.bytes) } c where
  stream := h.stream
  contents := h.contents
  position := h.position
  maps := by
    intro q
    by_cases hq : q = ptr
    · subst hq
      simp only [Session.setMap, Function.update_self]
    · simp only [Session.setMap, Function.update_of_ne hq, h.maps]
  next := h.next

theorem Represents.addMap {s : Session} {f : ByteFile} {c : Cursor} (h : Represents s f c)
    (buf : Vec) :
    Represents (s.addMap buf)
      { f with maps := Function.update f.maps f.next (some buf.bytes), next := f.next + 1 }
      c where
  stream := h.stream
  contents := h.contents
  position := h.position
  maps := by
    rw [← h.next]
    exact (h.setMap s.next (some buf)).maps
  next := congrArg (· + 1) h.next

/-! ## One call -/

section Square

variable {s : Session} {f : ByteFile} {c : Cursor}

theorem seek_refines (h : Represents s f c) (offset : BitVec 64) (whence : BitVec 32)
    (ok : f.Permitted (.seek offset whence)) :
    ∃ s' c', s.call (.seek offset whence) = .ok ((f.call (.seek offset whence)).1, s') ∧
      Represents s' (f.call (.seek offset whence)).2 c' := by
  have hmax := isizeMax_eq
  have hrun := vfileSeek_run c offset whence
  rw [← h.stream] at hrun
  simp only [ByteFile.Permitted] at ok
  simp only [ByteFile.call]
  have htarget := h.target offset whence
  cases ht : f.target offset whence with
  | some t =>
      -- a permitted target is representable, so the cursor lands on it
      rw [ht] at ok htarget
      have hland : c.landing offset whence = some t.toNat := by
        rcases c.landing_cases offset whence with ⟨t', ht', -, -, hland⟩ | ⟨hout, -⟩
        · rw [htarget] at ht'
          cases ht'
          exact hland
        · exact absurd ok (hout t htarget)
      rw [hland] at hrun
      refine ⟨_, _, ?_, h.withStream { c with pos := BitVec.ofNat 64 t.toNat }
        h.contents ?_ rfl rfl⟩
      · rw [Session.call, Session.onStream_of_run hrun, asSigned_of_le (by omega),
          Int.toNat_of_nonneg ok.1]
      · rw [BitVec.toNat_ofNat, Nat.mod_eq_of_lt (by omega)]
  | none =>
      -- `whence` is none of the three
      rw [ht] at htarget
      have hland : c.landing offset whence = none := by
        by_cases hset : whence = SEEK_SET
        · rw [seekTarget, if_pos hset] at htarget
          cases htarget
        · rw [Cursor.landing_of_ne hset, htarget]
          rfl
      rw [hland] at hrun
      refine ⟨_, _, ?_, h.withStream c h.contents h.position rfl rfl⟩
      rw [Session.call, Session.onStream_of_run hrun, h.stream]

theorem read_refines (h : Represents s f c) (size : Nat) :
    ∃ s' c', s.call (.read size) = .ok ((f.call (.read size)).1, s') ∧
      Represents s' (f.call (.read size)).2 c' := by
  have hmax := isizeMax_eq
  have hfits := c.inner.fits
  have hpos := c.pos.isLt
  have hlen := c.inner.length_readAt c.pos.toNat size
  have hgot : c.inner.readAt c.pos.toNat size =
      (f.contents.drop f.position).take (min size (f.contents.length - f.position)) := by
    rw [Vec.readAt, h.contents, h.position]
    exact List.take_eq_take_min.trans (by rw [List.length_drop])
  have hrun : vfileRead size s.ops = .ok ((asSigned (c.read size).1.length, (c.read size).1),
      .cursor (c.read size).2) := by
    rw [h.stream]
    rfl
  refine ⟨_, _, ?_, h.withStream (c.read size).2 h.contents ?_ rfl rfl⟩
  · rw [Session.call, Session.onStream_of_run hrun]
    simp only [Cursor.read, ByteFile.call]
    rw [asSigned_of_le (by omega), hlen, hgot, h.contents, h.position]
  · simp only [Cursor.read, ByteFile.call]
    rw [BitVec.toNat_add, BitVec.toNat_ofNat, hlen, ← h.contents, ← h.position]
    omega

theorem write_refines (h : Represents s f c) (buffer : List Byte)
    (ok : f.Permitted (.write buffer)) :
    ∃ s' c', s.call (.write buffer) = .ok ((f.call (.write buffer)).1, s') ∧
      Represents s' (f.call (.write buffer)).2 c' := by
  have hmax := isizeMax_eq
  have hfits := c.inner.fits
  have hroom : c.pos.toNat + buffer.length ≤ isizeMax := by
    rw [h.position]
    exact ok.2
  have hend : (Splice.overwrite 0 c.inner.bytes c.pos.toNat buffer).length ≤ isizeMax := by
    rw [Splice.length_overwrite]
    omega
  have hrun := vfileWrite_cursor c hend
  rw [← h.stream] at hrun
  refine ⟨_, _, ?_, h.withStream ⟨⟨_, hend⟩, c.pos + BitVec.ofNat 64 buffer.length⟩
    ?_ ?_ rfl rfl⟩
  · rw [Session.call, Session.onStream_of_run hrun, asSigned_of_le (by omega)]
    rfl
  · simp only [ByteFile.call]
    rw [h.contents, h.position]
  · simp only [ByteFile.call]
    rw [BitVec.toNat_add, BitVec.toNat_ofNat, ← h.position]
    omega

theorem truncate_refines (h : Represents s f c) {size : Nat} (hsize : size ≤ isizeMax) :
    ∃ s' c', s.call (.truncate size) = .ok ((f.call (.truncate size)).1, s') ∧
      Represents s' (f.call (.truncate size)).2 c' := by
  have hend : (Splice.resize 0 c.inner.bytes size).length ≤ isizeMax := by
    rw [Splice.length_resize]
    exact hsize
  have hrun := vfileTruncate_cursor c hend
  rw [← h.stream] at hrun
  refine ⟨_, _, ?_, h.withStream ⟨⟨_, hend⟩, c.pos⟩ ?_ h.position rfl rfl⟩
  · rw [Session.call, Session.onStream_of_run hrun]
    rfl
  · simp only [ByteFile.call]
    rw [h.contents]

theorem size_refines (h : Represents s f c) :
    ∃ s' c', s.call .size = .ok ((f.call .size).1, s') ∧
      Represents s' (f.call .size).2 c' := by
  refine ⟨s, c, ?_, h⟩
  rw [Session.call_size, h.ops_contents]
  rfl

theorem map_refines (h : Represents s f c) {size : Nat} (hsize : size ≤ isizeMax)
    (flags : BitVec 32) :
    ∃ s' c', s.call (.map size flags) = .ok ((f.call (.map size flags)).1, s') ∧
      Represents s' (f.call (.map size flags)).2 c' := by
  rw [Session.call_map s hsize, h.ops_contents]
  by_cases hlen : size ≤ f.contents.length
  · have hbytes : (s.ops.contents.slice 0 size).bytes = f.contents.take size := by
      rw [← h.ops_contents]
      rfl
    have hrep := h.addMap (s.ops.contents.slice 0 size)
    rw [hbytes] at hrep
    simp only [ByteFile.call, if_pos hlen]
    exact ⟨_, c, by rw [h.next], hrep⟩
  · simp only [ByteFile.call, if_neg hlen]
    exact ⟨s, c, rfl, h⟩

/-- A permitted pointer names an outstanding mapping of the session, with the
reference's bytes. -/
theorem Represents.outstanding (h : Represents s f c) {ptr : Nat} {bytes : List Byte}
    (hbytes : f.maps ptr = some bytes) :
    ∃ buf, s.maps ptr = some buf ∧ buf.bytes = bytes :=
  Option.map_eq_some_iff.mp ((h.maps ptr).trans hbytes)

theorem poke_refines (h : Represents s f c) {ptr i : Nat} {b : Byte}
    (ok : f.Permitted (.poke ptr i b)) :
    ∃ s' c', s.call (.poke ptr i b) = .ok ((f.call (.poke ptr i b)).1, s') ∧
      Represents s' (f.call (.poke ptr i b)).2 c' := by
  obtain ⟨bytes, hbytes, hi⟩ := ok
  obtain ⟨buf, hbuf, rfl⟩ := h.outstanding hbytes
  rw [Session.call_poke hbuf hi]
  simp only [ByteFile.call, hbytes]
  exact ⟨_, c, rfl, h.setMap ptr (some (buf.store i b))⟩

theorem unmap_refines (h : Represents s f c) {ptr : Nat}
    (ok : f.Permitted (.unmap ptr)) :
    ∃ s' c', s.call (.unmap ptr) = .ok ((f.call (.unmap ptr)).1, s') ∧
      Represents s' (f.call (.unmap ptr)).2 c' := by
  obtain ⟨bytes, hbytes⟩ := ok
  obtain ⟨buf, hbuf, rfl⟩ := h.outstanding hbytes
  have hok : buf.bytes = [] ∨ s.ops.writable = true := by
    rw [h.stream]
    exact Or.inr rfl
  rw [Session.call_unmap hbuf, if_pos hok, h.stream]
  simp only [ByteFile.call, hbytes, Option.getD_some]
  have hsplice : Represents
      { s with ops := (VFileOps.cursor c).setContents ((VFileOps.cursor c).spliced buf) }
      { f with contents := Splice.overwrite 0 f.contents 0 buf.bytes }
      ⟨(VFileOps.cursor c).spliced buf, c.pos⟩ := by
    refine h.withStream _ ?_ h.position rfl rfl
    rw [← h.contents]
    rfl
  exact ⟨_, _, rfl, hsplice.setMap ptr none⟩

theorem sync_refines (h : Represents s f c) (ptr : Option Nat) (flushed : Bool) :
    ∃ s' c', s.call (.sync ptr flushed) = .ok ((f.call (.sync ptr flushed)).1, s') ∧
      Represents s' (f.call (.sync ptr flushed)).2 c' := by
  refine ⟨_, _, ?_, h.withStream c h.contents h.position rfl rfl⟩
  rw [Session.call, Session.onStream_of_run (vfileSync_run _ flushed s.ops), h.stream]
  rfl

/-- Every permitted call answers as the reference does and keeps the two in
step. -/
theorem call_refines (h : Represents s f c) (call : Call) (ok : f.Permitted call) :
    ∃ s' c', s.call call = .ok ((f.call call).1, s') ∧
      Represents s' (f.call call).2 c' := by
  cases call with
  | seek offset whence => exact seek_refines h offset whence ok
  | read size => exact read_refines h size
  | write buffer => exact write_refines h buffer ok
  | truncate size => exact truncate_refines h ok
  | size => exact size_refines h
  | map size flags => exact map_refines h ok flags
  | poke ptr i b => exact poke_refines h ok
  | unmap ptr => exact unmap_refines h ok
  | sync ptr flushed => exact sync_refines h ptr flushed

end Square

/-! ## Whole sessions -/

/-- A permitted session on an in-memory `VFile` never faults, every answer is
the reference's, and it ends with the reference's contents, position and
outstanding mappings. -/
theorem fromVec_refines (v : Vec) (calls : List Call)
    (permitted : Lts.Legal ByteFile.Permitted ByteFile.call (ByteFile.init v.bytes) calls) :
    ∃ s c, Lts.exec Session.call (Session.init (fromVec v)) calls =
        .ok ((Lts.execSpec ByteFile.call (ByteFile.init v.bytes) calls).1, s) ∧
      Represents s (Lts.execSpec ByteFile.call (ByteFile.init v.bytes) calls).2 c := by
  obtain ⟨s, hrun, c, hrep⟩ := Lts.exec_refines (R := fun s f => ∃ c, Represents s f c)
    (fun s f a hR ok => by
      obtain ⟨c, h⟩ := hR
      obtain ⟨s', c', hcall, hrep⟩ := call_refines h a ok
      exact ⟨s', hcall, c', hrep⟩)
    calls ⟨_, Represents.init v⟩ permitted
  exact ⟨s, c, hrun, hrep⟩

/-- A session with a mapping that outlives the bytes it was made of, a write
past the end and a mapping that is refused. -/
theorem fromVec_refines_truncated_mapping :
    ∃ s, Lts.exec Session.call (Session.init (fromVec ⟨[1, 2, 3], by decide⟩))
        [.map 2 1, .poke 0 1 9, .truncate 1, .seek 4 SEEK_SET, .write [7], .map 6 1,
          .unmap 0, .size, .read 1, .sync none true] =
        .ok ([.pointer (some (0, [1, 2])), .unit, .unit, .int 4, .int 1, .pointer none,
          .unit, .int 5, .bytes 0 [], .flag true], s) ∧
      s.ops.contents.bytes = [1, 9, 0, 0, 7] ∧ s.maps 0 = none := by
  obtain ⟨s, c, hrun, hrep⟩ := fromVec_refines ⟨[1, 2, 3], by decide⟩
    [.map 2 1, .poke 0 1 9, .truncate 1, .seek 4 SEEK_SET, .write [7], .map 6 1,
      .unmap 0, .size, .read 1, .sync none true]
    ⟨(by decide : 2 ≤ isizeMax), ⟨_, rfl, by decide⟩, (by decide : 1 ≤ isizeMax),
      (by decide : (0 : Int) ≤ 4 ∧ (4 : Int) ≤ isizeMax),
      ⟨by decide, (by decide : 4 + 1 ≤ isizeMax)⟩, (by decide : 6 ≤ isizeMax),
      ⟨_, rfl⟩, trivial, trivial, trivial, trivial⟩
  exact ⟨s, hrun, hrep.ops_contents, Option.map_eq_none_iff.mp (hrep.maps 0)⟩

end MgbaRs
