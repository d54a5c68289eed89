import MgbaRs.VFile.Std

/-!
# The `VFile` vtable

The ten-entry vtable mGBA calls through, less `readline` (mGBA's own). Each
function runs in `VM`: the boxed `VFileOps` is the state, a trait method's
`io::Result` is an ordinary value, and a failed `assert!` or `unwrap` faults
(the callbacks are `extern "C"`, so a panic aborts the process).

The second half gives one spec lemma per vtable function, over both streams:
what it answers and which of contents and position it moves. Everything
further rests on these.
-/

namespace MgbaRs

/-- `Box<dyn VFileOps>`. -/
inductive VFileOps where
  | cursor (c : Cursor)
  | file (f : File)
deriving DecidableEq

abbrev VM := StateT VFileOps (Except Fault)

namespace VM

def raise {α : Type} (f : Fault) : VM α := fun _ => .error f

/-- `Result::unwrap`. -/
def unwrap {α : Type} : Except IoError α → VM α
  | .ok a => pure a
  | .error _ => raise .unwrapErr

/-- `assert!(r.is_ok())`. -/
def assertOk {α : Type} : Except IoError α → VM Unit
  | .ok _ => pure ()
  | .error _ => raise .assertFailed

end VM

/-! ## The trait methods -/

namespace VFileOps

def contents : VFileOps → Vec
  | .cursor c => c.inner
  | .file f => f.data

def position : VFileOps → Nat
  | .cursor c => c.pos.toNat
  | .file f => f.pos

/-- Whether a non-empty write can succeed. -/
def writable : VFileOps → Bool
  | .cursor _ => true
  | .file f => f.writable

/-- An `io::Result` as a value, next to the stream it leaves behind: an error
leaves the stream alone. -/
def settle {α γ : Type} (wrap : γ → VFileOps) (old : γ) :
    Except IoError (α × γ) → Except IoError α × VFileOps
  | .ok (a, new) => (.ok a, wrap new)
  | .error e => (.error e, wrap old)

def seek (w : SeekFrom) : VM (Except IoError Nat)
  | .cursor c => .ok (settle .cursor c (c.seek w))
  | .file f => .ok (settle .file f (f.seek w))

/-- `stream_position` is `seek(SeekFrom::Current(0))`. -/
def streamPosition : VM (Except IoError Nat) := seek (.current 0)

def read (n : Nat) : VM (Except IoError (List Byte))
  | .cursor c => .ok (.ok (c.read n).1, .cursor (c.read n).2)
  | .file f => .ok (.ok (f.read n).1, .file (f.read n).2)

def readExact (n : Nat) : VM (Except IoError Vec)
  | .cursor c => .ok ((c.readExact n).1, .cursor (c.readExact n).2)
  | .file f => .ok ((f.readExact n).1, .file (f.readExact n).2)

def write (buf : List Byte) : VM (Except IoError Nat)
  | .cursor c => (c.write buf).map fun (n, c') => (.ok n, .cursor c')
  | .file f => .ok (settle .file f (f.write buf))

/-- For a cursor one `write` takes the whole buffer. -/
def writeAll (buf : List Byte) : VM (Except IoError Unit)
  | .cursor c => (c.write buf).map fun (_, c') => (.ok (), .cursor c')
  | .file f => .ok ((f.writeAll buf).1, .file (f.writeAll buf).2)

def resize (size : Nat) : VM (Except IoError Unit)
  | .cursor c => (c.resize size).map fun c' => (.ok (), .cursor c')
  | .file f => .ok ((f.setLen size).1, .file (f.setLen size).2)

/-- A cursor has nothing to flush; for a file the operating system's answer
is an input. -/
def syncData (flushed : Bool) : VM (Except IoError Unit)
  | .cursor c => .ok (.ok (), .cursor c)
  | .file f => .ok (if flushed then .ok () else .error .other, .file f)

end VFileOps

/-! ## The vtable -/

open VFileOps VM

def SEEK_SET : BitVec 32 := 0
def SEEK_CUR : BitVec 32 := 1
def SEEK_END : BitVec 32 := 2

/-- Dropping the box closes a file and frees a vector: the answer, and what
is left behind where the stream was. -/
def vfileClose : VFileOps → Bool × Option Vec
  | .cursor _ => (true, none)
  | .file f => (true, some f.data)

def vfileSeek (offset : BitVec 64) (whence : BitVec 32) : VM Int :=
  if whence = SEEK_SET then seekTo (.start offset.toNat)
  else if whence = SEEK_CUR then seekTo (.current offset.toInt)
  else if whence = SEEK_END then seekTo (.fromEnd offset.toInt)
  else pure (-1)
where
  seekTo (w : SeekFrom) : VM Int := do
    match ← seek w with
    | .ok v => pure (asSigned v)
    | .error _ => pure (-1)

/-- The answer and the bytes put into the caller's buffer. -/
def vfileRead (size : Nat) : VM (Int × List Byte) := do
  match ← read size with
  | .ok got => pure (asSigned got.length, got)
  | .error _ => pure (-1, [])

def vfileWrite (buffer : List Byte) : VM Int := do
  match ← write buffer with
  | .ok v => pure (asSigned v)
  | .error _ => pure (-1)

/-- `vec![0u8; size]`, of which only the size matters here: it is filled or
given up. There is memory for any size a vector may have. -/
def zeroedBuffer (size : Nat) : VM Unit :=
  if size ≤ isizeMax then pure () else raise .capacityOverflow

/-- The mapping is a leaked copy of the first `size` bytes. -/
def vfileMap (size : Nat) (_flags : BitVec 32) : VM (Option Vec) := do
  let pos ← unwrap (← streamPosition)
  assertOk (← seek (.start 0))
  zeroedBuffer size
  match ← readExact size with
  | .error _ =>
      -- fewer than `size` bytes in the stream
      assertOk (← seek (.start pos))
      pure none
  | .ok buf =>
      assertOk (← seek (.start pos))
      pure (some buf)

/-- `Vec::from_raw_parts` takes the mapping back; its bytes go to the front
of the stream. -/
def vfileUnmap (memory : Vec) : VM Unit := do
  let pos ← unwrap (← streamPosition)
  assertOk (← seek (.start 0))
  -- written back whatever it was mapped for
  assertOk (← writeAll memory.bytes)
  assertOk (← seek (.start pos))

def vfileTruncate (size : Nat) : VM Unit := do
  -- a failure to resize is ignored
  let _ ← resize size
  pure ()

def vfileSize : VM Int := do
  let pos ← unwrap (← streamPosition)
  let len ← unwrap (← seek (.fromEnd 0))
  assertOk (← seek (.start pos))
  pure (asSigned len)

def vfileSync (_buffer : Vec) (flushed : Bool) : VM Bool := do
  match ← syncData flushed with
  | .ok _ => pure true
  | .error _ => pure false

/-- `VFile::from_vec`. -/
def fromVec (v : Vec) : VFileOps := .cursor (Cursor.new v)

/-- `VFile::from_file` on a file just opened. -/
def fromFile (data : Vec) (writable : Bool) : VFileOps :=
  .file ⟨data, 0, Nat.zero_le _, writable⟩

/-! ## What each vtable function does -/

theorem VM.bind_of_ok {α β : Type} {x : VM α} {f : α → VM β} {s s' : VFileOps} {a : α}
    (h : x s = .ok (a, s')) : (x >>= f) s = f a s' := by
  show (x s).bind (fun p => f p.1 p.2) = f a s'
  rw [h]
  rfl

theorem VM.bind_of_error {α β : Type} {x : VM α} {f : α → VM β} {s : VFileOps}
    {e : Fault} (h : x s = .error e) : (x >>= f) s = .error e := by
  show (x s).bind (fun p => f p.1 p.2) = .error e
  rw [h]
  rfl

namespace VFileOps

/-- The same stream with its position moved to `p`. -/
def moveTo (p : Nat) : VFileOps → VFileOps
  | .cursor c => .cursor { c with pos := BitVec.ofNat 64 p }
  | .file f => .file (if h : p ≤ isizeMax then { f with pos := p, pos_le := h } else f)

/-- The same stream and position over other contents. -/
def setContents (v : Vec) : VFileOps → VFileOps
  | .cursor c => .cursor { c with inner := v }
  | .file f => .file { f with data := v }

/-- The positions `SeekFrom::Start` accepts. -/
def Seekable (p : Nat) : VFileOps → Prop
  | .cursor _ => p < 2 ^ 64
  | .file _ => p ≤ isizeMax

@[simp] theorem contents_setContents (v : Vec) (s : VFileOps) :
    (s.setContents v).contents = v := by cases s <;> rfl

@[simp] theorem position_setContents (v : Vec) (s : VFileOps) :
    (s.setContents v).position = s.position := by cases s <;> rfl

@[simp] theorem moveTo_position (s : VFileOps) : s.moveTo s.position = s := by
  cases s with
  | cursor c => simp [moveTo, position]
  | file f => simp [moveTo, position, f.pos_le]

@[simp] theorem moveTo_moveTo (p q : Nat) (s : VFileOps) (h : s.Seekable p) :
    (s.moveTo q).moveTo p = s.moveTo p := by
  cases s with
  | cursor c => rfl
  | file f =>
      simp only [Seekable] at h
      simp only [moveTo, h, dif_pos]
      split <;> rfl

theorem seekable_position (s : VFileOps) : s.Seekable s.position := by
  cases s with
  | cursor c => exact c.pos.isLt
  | file f => exact f.pos_le

@[simp] theorem seekable_moveTo (p q : Nat) (s : VFileOps) :
    (s.moveTo q).Seekable p ↔ s.Seekable p := by cases s <;> rfl

@[simp] theorem seekable_setContents (p : Nat) (v : Vec) (s : VFileOps) :
    (s.setContents v).Seekable p ↔ s.Seekable p := by cases s <;> rfl

theorem seekable_of_le {p : Nat} {s : VFileOps} (h : p ≤ isizeMax) : s.Seekable p := by
  unfold isizeMax at h
  cases s with
  | cursor c =>
      simp only [Seekable]
      omega
  | file f => exact h

theorem seek_start {p : Nat} {s : VFileOps} (h : s.Seekable p) :
    seek (.start p) s = .ok (.ok p, s.moveTo p) := by
  cases s with
  | cursor c => rfl
  | file f =>
      simp only [Seekable] at h
      rw [seek, File.seek_start f h, settle, moveTo, dif_pos h]

theorem streamPosition_run (s : VFileOps) :
    streamPosition s = .ok (.ok s.position, s) := by
  cases s with
  | cursor c =>
      rw [streamPosition, seek, Cursor.seek_current_zero]
      rfl
  | file f =>
      rw [streamPosition, seek, File.seek_current_zero]
      rfl

theorem seek_end (s : VFileOps) :
    seek (.fromEnd 0) s =
      .ok (.ok s.contents.bytes.length, s.moveTo s.contents.bytes.length) := by
  cases s with
  | cursor c =>
      rw [seek, Cursor.seek_fromEnd_zero]
      rfl
  | file f =>
      have hle : (file f).contents.bytes.length ≤ isizeMax := f.data.fits
      rw [seek, File.seek_fromEnd_zero, moveTo, dif_pos hle]
      rfl

/-- From the front, `read_exact` succeeds exactly when the contents are long
enough, and takes the first bytes. -/
theorem readExact_front (n : Nat) (s : VFileOps) :
    ∃ p, readExact n (s.moveTo 0) =
      .ok (if n ≤ s.contents.bytes.length then .ok (s.contents.slice 0 n)
        else .error .unexpectedEof, s.moveTo p) := by
  have hlen : (s.contents.slice 0 n).bytes.length = n ↔ n ≤ s.contents.bytes.length := by
    show (s.contents.readAt 0 n).length = n ↔ _
    rw [Vec.length_readAt]
    omega
  cases s with
  | cursor c =>
      simp only [contents] at hlen ⊢
      by_cases h : n ≤ c.inner.bytes.length
      · refine ⟨n, ?_⟩
        have hgot := hlen.mpr h
        simp [readExact, moveTo, Cursor.readExact, hgot, h]
      · refine ⟨c.inner.bytes.length, ?_⟩
        have hgot := mt hlen.mp h
        simp [readExact, moveTo, Cursor.readExact, hgot, h]
  | file f =>
      simp only [contents] at hlen ⊢
      refine ⟨(f.data.readAt 0 n).length, ?_⟩
      have hle : (f.data.readAt 0 n).length ≤ isizeMax := (f.data.slice 0 n).fits
      by_cases h : n ≤ f.data.bytes.length
      · have hgot := hlen.mpr h
        simp [readExact, moveTo, File.readExact, File.advance, hgot, h, hle]
      · have hgot := mt hlen.mp h
        simp [readExact, moveTo, File.readExact, File.advance, hgot, h, hle]

/-- What the contents become when `buf` is written at the front. -/
def spliced (s : VFileOps) (buf : Vec) : Vec where
  bytes := Splice.overwrite 0 s.contents.bytes 0 buf.bytes
  fits := by
    have h₁ := s.contents.fits
    have h₂ := buf.fits
    rw [Splice.length_overwrite]
    omega

/-- From the front, `write_all` replaces the first bytes, unless the stream
rejects writes and there is something to write. -/
theorem writeAll_front (buf : Vec) (s : VFileOps) :
    ∃ p, writeAll buf.bytes (s.moveTo 0) =
      if buf.bytes = [] ∨ s.writable = true then
        .ok (.ok (), (s.setContents (s.spliced buf)).moveTo p)
      else .ok (.error .badDescriptor, s.moveTo 0) := by
  cases s with
  | cursor c =>
      refine ⟨buf.bytes.length, ?_⟩
      have hwrite := Cursor.write_eq { c with pos := 0 } ((cursor c).spliced buf).fits
      have hok : buf.bytes = [] ∨ (cursor c).writable = true := Or.inr rfl
      rw [if_pos hok]
      show ((Cursor.write { c with pos := 0 } buf.bytes).map _) = _
      rw [hwrite]
      simp [Except.map, moveTo, setContents, spliced, contents]
  | file f =>
      have hmove : (file f).moveTo 0 = file { f with pos := 0, pos_le := Nat.zero_le _ } := by
        rw [moveTo, dif_pos (Nat.zero_le _)]
      rw [hmove]
      show ∃ p, Except.ok ((File.writeAll _ buf.bytes).1, file (File.writeAll _ buf.bytes).2) = _
      by_cases hnil : buf.bytes = []
      · -- nothing to write: the contents are spliced with nothing
        refine ⟨0, ?_⟩
        have hsame : (file f).spliced buf = f.data := by
          apply Vec.ext
          show Splice.overwrite 0 f.data.bytes 0 buf.bytes = f.data.bytes
          simp [hnil, Splice.overwrite_zero]
        rw [if_pos (Or.inl hnil), hsame, hnil, File.writeAll_nil, ← hmove]
        rfl
      · by_cases hw : f.writable = true
        · refine ⟨buf.bytes.length, ?_⟩
          have hok : buf.bytes = [] ∨ (file f).writable = true := Or.inr hw
          have hend : 0 + buf.bytes.length ≤ isizeMax := by
            have := buf.fits
            omega
          rw [if_pos hok, File.writeAll_of_write hnil
            (File.write_of_fits { f with pos := 0, pos_le := Nat.zero_le _ } hnil hw hend)]
          simp [setContents, moveTo, spliced, contents, buf.fits]
        · refine ⟨0, ?_⟩
          have hno : ¬ (buf.bytes = [] ∨ (file f).writable = true) := by
            rintro (h | h)
            · exact hnil h
            · exact hw h
          rw [if_neg hno, File.writeAll_readOnly _ hnil (by simpa using hw)]

end VFileOps

/-! The next five lemmas are the vtable as a table: the answer, and the stream
afterwards. Every cursor dance of `map`, `unmap` and `size` ends where it
began. -/

@[simp] theorem VM.unwrap_ok {α β : Type} (a : α) (f : α → VM β) (s : VFileOps) :
    (VM.unwrap (.ok a) >>= f) s = f a s := rfl

@[simp] theorem VM.assertOk_ok {α β : Type} (a : α) (f : Unit → VM β) (s : VFileOps) :
    (VM.assertOk (.ok a) >>= f) s = f () s := rfl

@[simp] theorem VM.assertOk_error {α β : Type} (e : IoError) (f : Unit → VM β)
    (s : VFileOps) :
    ((VM.assertOk (.error e : Except IoError α)) >>= f) s = .error .assertFailed := rfl

/-- `map` answers with the first bytes, or null when there are too few, and
leaves the stream as it was. -/
theorem vfileMap_run {n : Nat} (h : n ≤ isizeMax) (flags : BitVec 32) (s : VFileOps) :
    vfileMap n flags s = .ok
      (if n ≤ s.contents.bytes.length then some (s.contents.slice 0 n) else none, s) := by
  have hzero : zeroedBuffer n (s.moveTo 0) = .ok ((), s.moveTo 0) := by
    rw [zeroedBuffer, if_pos h]
    rfl
  have hback : ∀ p, seek (.start s.position) (s.moveTo p) = .ok (.ok s.position, s) := by
    intro p
    rw [seek_start ((seekable_moveTo _ _ _).mpr s.seekable_position),
      moveTo_moveTo _ _ _ s.seekable_position, moveTo_position]
  obtain ⟨p, hread⟩ := readExact_front n s
  rw [vfileMap, VM.bind_of_ok (streamPosition_run s), VM.unwrap_ok,
    VM.bind_of_ok (seek_start (seekable_of_le (Nat.zero_le _))), VM.assertOk_ok,
    VM.bind_of_ok hzero, VM.bind_of_ok hread]
  by_cases hn : n ≤ s.contents.bytes.length
  · rw [if_pos hn, if_pos hn]
    show (seek (.start s.position) >>= _) (s.moveTo p) = _
    rw [VM.bind_of_ok (hback p), VM.assertOk_ok]
    rfl
  · rw [if_neg hn, if_neg hn]
    show (seek (.start s.position) >>= _) (s.moveTo p) = _
    rw [VM.bind_of_ok (hback p), VM.assertOk_ok]
    rfl

/-- `unmap` splices the mapping over the front and keeps the position; on a
stream that rejects the write, its assertion fails. -/
theorem vfileUnmap_run (memory : Vec) (s : VFileOps) :
    vfileUnmap memory s =
      if memory.bytes = [] ∨ s.writable = true then .ok ((), s.setContents (s.spliced memory))
      else .error .assertFailed := by
  obtain ⟨p, hwrite⟩ := writeAll_front memory s
  rw [vfileUnmap, VM.bind_of_ok (streamPosition_run s), VM.unwrap_ok,
    VM.bind_of_ok (seek_start (seekable_of_le (Nat.zero_le _))), VM.assertOk_ok]
  by_cases hok : memory.bytes = [] ∨ s.writable = true
  · rw [if_pos hok] at hwrite ⊢
    have hseek : (s.setContents (s.spliced memory)).Seekable s.position :=
      (seekable_setContents _ _ _).mpr s.seekable_position
    have hback : seek (.start s.position) ((s.setContents (s.spliced memory)).moveTo p) =
        .ok (.ok s.position, s.setContents (s.spliced memory)) := by
      rw [seek_start ((seekable_moveTo _ _ _).mpr hseek), moveTo_moveTo _ _ _ hseek,
        ← position_setContents (s.spliced memory) s, moveTo_position]
    rw [VM.bind_of_ok hwrite, VM.assertOk_ok, VM.bind_of_ok hback]
    rfl
  · rw [if_neg hok] at hwrite ⊢
    rw [VM.bind_of_ok hwrite, VM.assertOk_error]

/-- `size` answers the length and leaves the stream as it was. -/
theorem vfileSize_run (s : VFileOps) :
    vfileSize s = .ok ((s.contents.bytes.length : Int), s) := by
  have hback : seek (.start s.position) (s.moveTo s.contents.bytes.length) =
      .ok (.ok s.position, s) := by
    rw [seek_start ((seekable_moveTo _ _ _).mpr s.seekable_position),
      moveTo_moveTo _ _ _ s.seekable_position, moveTo_position]
  rw [vfileSize, VM.bind_of_ok (streamPosition_run s), VM.unwrap_ok,
    VM.bind_of_ok (seek_end s), VM.unwrap_ok, VM.bind_of_ok hback, VM.assertOk_ok,
    asSigned_of_le s.contents.fits]
  rfl

/-- `sync` only reports whether the stream was flushed; the buffer it is
given plays no part. -/
theorem vfileSync_run (buffer : Vec) (flushed : Bool) (s : VFileOps) :
    vfileSync buffer flushed s = .ok
      (match s with
        | .cursor _ => true
        | .file _ => flushed, s) := by
  cases s with
  | cursor c => rfl
  | file f => cases flushed <;> rfl

/-! ### Seeks and reads leave the contents alone -/

namespace VFileOps

/-- The same kind of stream over the same contents; only the position may
differ. -/
def SameBytes : VFileOps → VFileOps → Prop
  | .cursor c, .cursor c' => c'.inner = c.inner
  | .file f, .file f' => f'.data = f.data ∧ f'.writable = f.writable
  | _, _ => False

theorem SameBytes.refl (s : VFileOps) : SameBytes s s := by
  cases s with
  | cursor c => rfl
  | file f => exact ⟨rfl, rfl⟩

theorem SameBytes.trans {s t u : VFileOps} (h : SameBytes s t) (h' : SameBytes t u) :
    SameBytes s u := by
  cases s <;> cases t <;> cases u <;> simp_all [SameBytes]

theorem SameBytes.contents {s t : VFileOps} (h : SameBytes s t) : t.contents = s.contents := by
  cases s <;> cases t <;> simp_all [SameBytes, VFileOps.contents]

theorem seek_sameBytes {w : SeekFrom} {s s' : VFileOps} {r : Except IoError Nat}
    (h : seek w s = .ok (r, s')) : SameBytes s s' := by
  cases s with
  | cursor c =>
      rw [seek] at h
      cases hc : c.seek w with
      | error e =>
          rw [hc] at h
          cases h
          exact SameBytes.refl _
      | ok p =>
          rw [hc] at h
          cases h
          exact Cursor.seek_inner hc
  | file f =>
      rw [seek] at h
      cases hf : f.seek w with
      | error e =>
          rw [hf] at h
          cases h
          exact SameBytes.refl _
      | ok p =>
          rw [hf] at h
          cases h
          exact File.seek_data hf

end VFileOps

theorem vfileSeek_sameBytes {offset : BitVec 64} {whence : BitVec 32} {s s' : VFileOps}
    {r : Int} (h : vfileSeek offset whence s = .ok (r, s')) : SameBytes s s' := by
  have hseek : ∀ w, vfileSeek.seekTo w s = .ok (r, s') → SameBytes s s' := by
    intro w hw
    rw [vfileSeek.seekTo] at hw
    cases hrun : seek w s with
    | error fault =>
        rw [VM.bind_of_error hrun] at hw
        cases hw
    | ok p =>
        obtain ⟨r', t⟩ := p
        rw [VM.bind_of_ok hrun] at hw
        have hsame := seek_sameBytes hrun
        cases r' <;>
          · cases hw
            exact hsame
  unfold vfileSeek at h
  split at h
  · exact hseek _ h
  · split at h
    · exact hseek _ h
    · split at h
      · exact hseek _ h
      · cases h
        exact SameBytes.refl s

theorem vfileRead_sameBytes {size : Nat} {s s' : VFileOps} {r : Int × List Byte}
    (h : vfileRead size s = .ok (r, s')) : SameBytes s s' := by
  cases s with
  | cursor c =>
      cases h
      rfl
  | file f =>
      cases h
      exact ⟨rfl, rfl⟩

/-! ### Writes and truncation on a cursor -/

theorem vfileWrite_cursor (c : Cursor) {buffer : List Byte}
    (h : (Splice.overwrite 0 c.inner.bytes c.pos.toNat buffer).length ≤ isizeMax) :
    vfileWrite buffer (.cursor c) = .ok (asSigned buffer.length,
      .cursor ⟨⟨Splice.overwrite 0 c.inner.bytes c.pos.toNat buffer, h⟩,
        c.pos + BitVec.ofNat 64 buffer.length⟩) := by
  have hwrite : VFileOps.write buffer (.cursor c) = .ok (.ok buffer.length,
      .cursor ⟨⟨Splice.overwrite 0 c.inner.bytes c.pos.toNat buffer, h⟩,
        c.pos + BitVec.ofNat 64 buffer.length⟩) := by
    rw [VFileOps.write, c.write_eq h]
    rfl
  rw [vfileWrite, VM.bind_of_ok hwrite]
  rfl

theorem vfileTruncate_cursor (c : Cursor) {size : Nat}
    (h : (Splice.resize 0 c.inner.bytes size).length ≤ isizeMax) :
    vfileTruncate size (.cursor c) = .ok ((),
      .cursor ⟨⟨Splice.resize 0 c.inner.bytes size, h⟩, c.pos⟩) := by
  have hresize : VFileOps.resize size (.cursor c) = .ok (.ok (),
      .cursor ⟨⟨Splice.resize 0 c.inner.bytes size, h⟩, c.pos⟩) := by
    rw [VFileOps.resize, c.resize_eq h]
    rfl
  rw [vfileTruncate, VM.bind_of_ok hresize]
  rfl

end MgbaRs
