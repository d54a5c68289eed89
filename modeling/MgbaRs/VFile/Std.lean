import MgbaRs.Lib.Splice
import MgbaRs.Rust.Num

/-!
# The two byte streams behind a `VFile`

`std::io::Cursor<Vec<u8>>` and `std::fs::File` as the crate uses them
through `VFileOps`: `seek`, `read`, `read_exact`, `write`, `write_all`,
`resize` and `sync_data`, after their documentation.

Both are a bounded byte vector with a position; they differ where it matters
here. A cursor's position is any `u64`, also past what the vector could ever
hold, and its writes are refused only by the allocator. A file's offset is a
non-negative `off_t`, and a file opened read-only refuses every write. Sizes
are those of a 64-bit target.

Left out: memory that runs out (an allocation fails only past `isize::MAX`), a
file opened for appending, a file system that stops short of the largest
`off_t` or runs full, and anyone else who changes the file meanwhile.
-/

namespace MgbaRs

/-- Why a stream operation reports an error. -/
inductive IoError where
  | invalidInput
  | unexpectedEof
  | writeZero
  | badDescriptor
  | fileTooLarge
  | other
deriving DecidableEq, Repr

/-- `std::io::SeekFrom`. -/
inductive SeekFrom where
  | start (n : Nat)
  | current (d : Int)
  | fromEnd (d : Int)
deriving DecidableEq, Repr

/-- A byte vector. No Rust vector is longer than `isize::MAX`, and no file
is longer than the largest `off_t`, which is the same number. -/
structure Vec where
  bytes : List Byte
  fits : bytes.length ≤ isizeMax
deriving DecidableEq

namespace Vec

@[ext] theorem ext {v w : Vec} (h : v.bytes = w.bytes) : v = w := by
  cases v
  cases w
  cases h
  rfl

/-- A vector with these bytes; asking for more than `isize::MAX` panics. There
is memory for anything less. -/
def alloc (bytes : List Byte) : Except Fault Vec :=
  if h : bytes.length ≤ isizeMax then .ok ⟨bytes, h⟩ else .error .capacityOverflow

theorem alloc_of_le {bytes : List Byte} (h : bytes.length ≤ isizeMax) :
    alloc bytes = .ok ⟨bytes, h⟩ := by
  rw [alloc, dif_pos h]

/-- Read at most `n` bytes from position `p`. -/
def readAt (v : Vec) (p n : Nat) : List Byte := (v.bytes.drop p).take n

theorem length_readAt (v : Vec) (p n : Nat) :
    (v.readAt p n).length = min n (v.bytes.length - p) := by
  simp only [readAt, List.length_take, List.length_drop]

/-- The same bytes as a vector of their own. -/
def slice (v : Vec) (p n : Nat) : Vec where
  bytes := v.readAt p n
  fits := by
    have := v.fits
    rw [length_readAt]
    omega

/-- A store through a pointer to the buffer. -/
def store (v : Vec) (i : Nat) (b : Byte) : Vec where
  bytes := v.bytes.set i b
  fits := by
    rw [List.length_set]
    exact v.fits

end Vec

/-! ## `Cursor<Vec<u8>>` -/

structure Cursor where
  inner : Vec
  pos : BitVec 64
deriving DecidableEq

namespace Cursor

/-- `Cursor::new`. -/
def new (v : Vec) : Cursor := ⟨v, 0⟩

/-- `SeekFrom::Start` stores any `u64`; the other two add the offset to their
origin and refuse a result outside `u64`. -/
def seek (c : Cursor) : SeekFrom → Except IoError (Nat × Cursor)
  | .start n => .ok (n, { c with pos := BitVec.ofNat 64 n })
  | .current d => relative c.pos.toNat d
  | .fromEnd d => relative c.inner.bytes.length d
where
  relative (base : Nat) (d : Int) : Except IoError (Nat × Cursor) :=
    if 0 ≤ (base : Int) + d ∧ (base : Int) + d < 2 ^ 64 then
      .ok (((base : Int) + d).toNat, { c with pos := BitVec.ofNat 64 ((base : Int) + d).toNat })
    else .error .invalidInput

/-- `read` never fails; past the end it returns nothing. -/
def read (c : Cursor) (n : Nat) : List Byte × Cursor :=
  let got := c.inner.readAt c.pos.toNat n
  (got, { c with pos := c.pos + BitVec.ofNat 64 got.length })

/-- `read_exact` leaves the cursor at the end of the vector when it comes up
short. -/
def readExact (c : Cursor) (n : Nat) : Except IoError Vec × Cursor :=
  let got := c.inner.slice c.pos.toNat n
  if got.bytes.length = n then (.ok got, { c with pos := c.pos + BitVec.ofNat 64 n })
  else (.error .unexpectedEof, { c with pos := BitVec.ofNat 64 c.inner.bytes.length })

/-- `write` first reserves and zero-fills up to the position (also for an
empty buffer), then copies over. -/
def write (c : Cursor) (buf : List Byte) : Except Fault (Nat × Cursor) := do
  let p := c.pos.toNat
  let padded := Splice.padTo 0 c.inner.bytes p
  let inner ← Vec.alloc (padded.take p ++ buf ++ padded.drop (p + buf.length))
  return (buf.length, ⟨inner, c.pos + BitVec.ofNat 64 buf.length⟩)

/-- `Vec::resize(size, 0)` under the cursor; the position stays. -/
def resize (c : Cursor) (size : Nat) : Except Fault Cursor := do
  let inner ← Vec.alloc
    (if size ≤ c.inner.bytes.length then c.inner.bytes.take size
     else c.inner.bytes ++ List.replicate (size - c.inner.bytes.length) 0)
  return { c with inner := inner }

theorem seek_current_zero (c : Cursor) : c.seek (.current 0) = .ok (c.pos.toNat, c) := by
  have hrange : (0 : Int) ≤ c.pos.toNat ∧ (c.pos.toNat : Int) < 2 ^ 64 := by
    have := c.pos.isLt
    omega
  simp only [seek, seek.relative, Int.add_zero, if_pos hrange, Int.toNat_natCast,
    BitVec.ofNat_toNat, BitVec.setWidth_eq]

theorem seek_fromEnd_zero (c : Cursor) :
    c.seek (.fromEnd 0) =
      .ok (c.inner.bytes.length, { c with pos := BitVec.ofNat 64 c.inner.bytes.length }) := by
  have hrange : (0 : Int) ≤ c.inner.bytes.length ∧
      (c.inner.bytes.length : Int) < 2 ^ 64 := by
    have := c.inner.fits
    unfold isizeMax at this
    omega
  simp only [seek, seek.relative, Int.add_zero, if_pos hrange, Int.toNat_natCast]

theorem seek_inner {c c' : Cursor} {w : SeekFrom} {n : Nat} (h : c.seek w = .ok (n, c')) :
    c'.inner = c.inner := by
  have hrel : ∀ base d, seek.relative c base d = .ok (n, c') → c'.inner = c.inner := by
    intro base d hd
    unfold seek.relative at hd
    split at hd
    · cases hd
      rfl
    · cases hd
  cases w with
  | start m =>
      cases h
      rfl
  | current d => exact hrel _ _ h
  | fromEnd d => exact hrel _ _ h

/-- A write whose end fits is the splice at the position. -/
theorem write_eq (c : Cursor) {buf : List Byte}
    (h : (Splice.overwrite 0 c.inner.bytes c.pos.toNat buf).length ≤ isizeMax) :
    c.write buf = .ok (buf.length,
      ⟨⟨Splice.overwrite 0 c.inner.bytes c.pos.toNat buf, h⟩,
        c.pos + BitVec.ofNat 64 buf.length⟩) := by
  simp only [write, Splice.overwrite_padTo, Vec.alloc_of_le h]
  rfl

/-- A resize that fits is the list-level resize; the position stays. -/
theorem resize_eq (c : Cursor) {size : Nat}
    (h : (Splice.resize 0 c.inner.bytes size).length ≤ isizeMax) :
    c.resize size = .ok ⟨⟨Splice.resize 0 c.inner.bytes size, h⟩, c.pos⟩ := by
  simp only [resize, ← Splice.resize_eq, Vec.alloc_of_le h]
  rfl

end Cursor

/-! ## `std::fs::File` -/

/-- A regular file that only its owner changes, opened for reading or for
reading and writing, not for appending. Its file system takes every offset up
to the largest `off_t` and never runs full. -/
structure File where
  data : Vec
  pos : Nat
  pos_le : pos ≤ isizeMax
  writable : Bool
deriving DecidableEq

namespace File

/-- Where `lseek` is asked to go. -/
def target (f : File) : SeekFrom → Int
  | .start n => n
  | .current d => f.pos + d
  | .fromEnd d => f.data.bytes.length + d

/-- `lseek`: the target must be a non-negative `off_t`. -/
def seek (f : File) (w : SeekFrom) : Except IoError (Nat × File) :=
  if h : 0 ≤ f.target w ∧ f.target w ≤ isizeMax then
    .ok ((f.target w).toNat, { f with pos := (f.target w).toNat, pos_le := by omega })
  else .error .invalidInput

theorem seek_start (f : File) {p : Nat} (h : p ≤ isizeMax) :
    f.seek (.start p) = .ok (p, { f with pos := p, pos_le := h }) := by
  have hrange : 0 ≤ f.target (.start p) ∧ f.target (.start p) ≤ isizeMax := by
    simp only [target]
    omega
  rw [seek, dif_pos hrange]
  rfl

theorem seek_current_zero (f : File) : f.seek (.current 0) = .ok (f.pos, f) := by
  have hrange : 0 ≤ f.target (.current 0) ∧ f.target (.current 0) ≤ isizeMax := by
    have := f.pos_le
    simp only [target]
    omega
  rw [seek, dif_pos hrange]
  rfl

theorem seek_fromEnd_zero (f : File) :
    f.seek (.fromEnd 0) =
      .ok (f.data.bytes.length, { f with pos := f.data.bytes.length, pos_le := f.data.fits }) := by
  have hrange : 0 ≤ f.target (.fromEnd 0) ∧ f.target (.fromEnd 0) ≤ isizeMax := by
    have := f.data.fits
    simp only [target]
    omega
  rw [seek, dif_pos hrange]
  rfl

theorem seek_data {f f' : File} {w : SeekFrom} {n : Nat} (h : f.seek w = .ok (n, f')) :
    f'.data = f.data ∧ f'.writable = f.writable := by
  unfold seek at h
  split at h
  · cases h
    exact ⟨rfl, rfl⟩
  · cases h

/-- The position after reading at most `n` bytes. -/
def advance (f : File) (n : Nat) : File :=
  { f with
    pos := f.pos + (f.data.readAt f.pos n).length
    pos_le := by
      have h₁ := f.data.fits
      have h₂ := f.pos_le
      rw [Vec.length_readAt]
      omega }

def read (f : File) (n : Nat) : List Byte × File :=
  (f.data.readAt f.pos n, f.advance n)

/-- The default `read_exact`: read on until the buffer is full or the file
ends. -/
def readExact (f : File) (n : Nat) : Except IoError Vec × File :=
  let got := f.data.slice f.pos n
  if got.bytes.length = n then (.ok got, f.advance n) else (.error .unexpectedEof, f.advance n)

/-- `write`: a read-only descriptor refuses; a writable one takes as much of
the buffer as fits below the largest offset. An empty write extends nothing. -/
def write (f : File) (buf : List Byte) : Except IoError (Nat × File) :=
  if f.writable = false then .error .badDescriptor
  else if buf = [] then .ok (0, f)
  else if f.pos = isizeMax then .error .fileTooLarge
  else
    let part := buf.take (isizeMax - f.pos)
    have hend : f.pos + part.length ≤ isizeMax := by
      have := f.pos_le
      simp only [part, List.length_take]
      omega
    .ok (part.length,
      { f with
        data := ⟨Splice.overwrite 0 f.data.bytes f.pos part, by
          have := f.data.fits
          rw [Splice.length_overwrite]
          omega⟩
        pos := f.pos + part.length
        pos_le := hend })

/-- The default `write_all`: write until the buffer is empty, an error comes
back, or a write takes nothing. One round per byte is always enough. -/
def writeAllRounds : Nat → File → List Byte → Except IoError Unit × File
  | 0, f, _ => (.ok (), f)
  | rounds + 1, f, buf =>
      if buf = [] then (.ok (), f)
      else match f.write buf with
        | .error e => (.error e, f)
        | .ok (0, f') => (.error .writeZero, f')
        | .ok (k, f') => writeAllRounds rounds f' (buf.drop k)

def writeAll (f : File) (buf : List Byte) : Except IoError Unit × File :=
  writeAllRounds buf.length f buf

theorem write_of_fits (f : File) {buf : List Byte} (hne : buf ≠ [])
    (hw : f.writable = true) (hfit : f.pos + buf.length ≤ isizeMax) :
    f.write buf = .ok (buf.length,
      ⟨⟨Splice.overwrite 0 f.data.bytes f.pos buf, by
          have := f.data.fits
          rw [Splice.length_overwrite]
          omega⟩, f.pos + buf.length, hfit, f.writable⟩) := by
  have hlen : 0 < buf.length := List.length_pos_iff.mpr hne
  have hpart : buf.take (isizeMax - f.pos) = buf := List.take_of_length_le (by omega)
  have hroom : f.pos ≠ isizeMax := by omega
  simp only [write, hw, hne, hroom, hpart, if_false, Bool.true_eq_false]

/-- When one `write` takes the whole buffer, `write_all` is done. -/
theorem writeAll_of_write {f f' : File} {buf : List Byte} (hne : buf ≠ [])
    (h : f.write buf = .ok (buf.length, f')) : f.writeAll buf = (.ok (), f') := by
  obtain ⟨k, hk⟩ : ∃ k, buf.length = k + 1 :=
    Nat.exists_eq_succ_of_ne_zero (List.length_pos_iff.mpr hne).ne'
  rw [hk] at h
  rw [writeAll, hk, writeAllRounds, if_neg hne, h]
  show writeAllRounds k f' (buf.drop (k + 1)) = (.ok (), f')
  rw [List.drop_of_length_le hk.le]
  cases k <;> rfl

theorem writeAll_nil (f : File) : f.writeAll [] = (.ok (), f) := rfl

/-- A read-only descriptor refuses the first byte. -/
theorem writeAll_readOnly (f : File) {buf : List Byte} (hne : buf ≠ [])
    (hw : f.writable = false) : f.writeAll buf = (.error .badDescriptor, f) := by
  obtain ⟨k, hk⟩ : ∃ k, buf.length = k + 1 :=
    Nat.exists_eq_succ_of_ne_zero (List.length_pos_iff.mpr hne).ne'
  rw [writeAll, hk, writeAllRounds, if_neg hne, write, if_pos hw]

/-- `set_len`: refused on a read-only descriptor and past the largest offset. -/
def setLen (f : File) (size : Nat) : Except IoError Unit × File :=
  if h : f.writable = true ∧ size ≤ isizeMax then
    (.ok (), { f with data := ⟨Splice.resize 0 f.data.bytes size, by
      rw [Splice.length_resize]
      exact h.2⟩ })
  else (.error .invalidInput, f)

end File

end MgbaRs
