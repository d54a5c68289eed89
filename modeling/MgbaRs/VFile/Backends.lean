import MgbaRs.Lib.Lts
import MgbaRs.VFile.Seek
import MgbaRs.VFile.Session

/-!
# The two backends side by side

mGBA cannot tell what is behind a `VFile`: a vector (`from_vec`), a file
opened for writing or a file opened read-only (`from_file`). This file says
what it can rely on:

* a vector and a writable file with the same bytes answer alike, fault alike
  and keep the same contents, position and mappings exactly as long as every
  call is `Alike` (`backends_inStep_iff`);
* a session on any stream goes on without aborting the process exactly as
  long as every call is one that `Survives` (`session_survives_iff`);
* a read-only file is never changed, and every answer is the one a reader of
  the bytes it was opened with gets (`readOnly_answers`).

All of it is under the assumptions of `VFile/Std.lean`: there is memory for
every vector up to `isize::MAX`, and the file is not opened for appending and
can be positioned at and grown to every offset below `2^63`.
-/

namespace MgbaRs

/-! ## The vtable on a file -/

theorem vfileSeek_file {c : Cursor} {f : File} (hdata : f.data = c.inner)
    (hpos : f.pos = c.pos.toNat) (offset : BitVec 64) (whence : BitVec 32) :
    vfileSeek offset whence (.file f) = .ok
      (match c.landing offset whence with
        | some u =>
            if u ≤ isizeMax then ((u : Int), (VFileOps.file f).moveTo u) else (-1, .file f)
        | none => (-1, .file f)) := by
  have hmax := isizeMax_eq
  have hseekTo : ∀ w, vfileSeek.seekTo w (.file f) = .ok
      (if 0 ≤ f.target w ∧ f.target w ≤ isizeMax then
        (f.target w, (VFileOps.file f).moveTo (f.target w).toNat)
      else (-1, .file f)) := by
    intro w
    have hrun : VFileOps.seek w (.file f) = .ok (VFileOps.settle .file f (f.seek w)) := rfl
    rw [vfileSeek.seekTo, VM.bind_of_ok hrun]
    by_cases hrange : 0 ≤ f.target w ∧ f.target w ≤ isizeMax
    · have hle : (f.target w).toNat ≤ isizeMax := by omega
      rw [if_pos hrange, File.seek, dif_pos hrange]
      show Except.ok (asSigned (f.target w).toNat, _) = _
      rw [asSigned_of_le hle, Int.toNat_of_nonneg hrange.1, VFileOps.moveTo, dif_pos hle]
    · rw [if_neg hrange, File.seek, dif_neg hrange]
      rfl
  -- a relative target, refused below zero and from `2^63` on
  have hrelative : ∀ w t, f.target w = t →
      vfileSeek.seekTo w (.file f) = .ok
        (match (if 0 ≤ t ∧ t < 2 ^ 64 then some t.toNat else none) with
          | some u => if u ≤ isizeMax then ((u : Int), (VFileOps.file f).moveTo u)
              else (-1, .file f)
          | none => (-1, .file f)) := by
    rintro w t rfl
    rw [hseekTo w]
    by_cases hrange : 0 ≤ f.target w ∧ f.target w < 2 ^ 64
    · rw [if_pos hrange]
      by_cases hle : f.target w ≤ isizeMax
      · have hnat : (f.target w).toNat ≤ isizeMax := by omega
        simp only [if_pos hnat, if_pos (And.intro hrange.1 hle),
          Int.toNat_of_nonneg hrange.1]
      · have hnat : ¬ (f.target w).toNat ≤ isizeMax := by omega
        simp only [if_neg hnat]
        rw [if_neg (fun h => hle h.2)]
    · have hno : ¬ (0 ≤ f.target w ∧ f.target w ≤ isizeMax) := by omega
      rw [if_neg hrange, if_neg hno]
  unfold vfileSeek
  by_cases hset : whence = SEEK_SET
  · subst hset
    have hlt := offset.isLt
    have hrange : (0 : Int) ≤ offset.toNat ∧ (offset.toNat : Int) < 2 ^ 64 := by omega
    have hrun := hrelative (.start offset.toNat) offset.toNat rfl
    rw [if_pos hrange, Int.toNat_natCast] at hrun
    rw [if_pos rfl, hrun, Cursor.landing_set]
  · rw [if_neg hset, Cursor.landing, if_neg hset, seekTarget, if_neg hset]
    by_cases hcur : whence = SEEK_CUR
    · rw [if_pos hcur, if_pos hcur, ← hpos]
      exact hrelative (.current offset.toInt) _ rfl
    · rw [if_neg hcur, if_neg hcur]
      by_cases hend : whence = SEEK_END
      · rw [if_pos hend, if_pos hend, ← hdata]
        exact hrelative (.fromEnd offset.toInt) _ rfl
      · rw [if_neg hend, if_neg hend]
        rfl

theorem vfileWrite_file (f : File) (buffer : List Byte) :
    vfileWrite buffer (.file f) = .ok
      (match f.write buffer with
        | .ok (n, f') => (asSigned n, .file f')
        | .error _ => (-1, .file f)) := by
  have hrun : VFileOps.write buffer (.file f) =
      .ok (VFileOps.settle .file f (f.write buffer)) := rfl
  rw [vfileWrite, VM.bind_of_ok hrun]
  cases f.write buffer <;> rfl

theorem vfileTruncate_file (f : File) (size : Nat) :
    vfileTruncate size (.file f) = .ok ((), .file (f.setLen size).2) := rfl

/-! ## Vectors that would grow too large -/

theorem vfileWrite_cursor_fault (c : Cursor) {buffer : List Byte}
    (h : isizeMax < c.pos.toNat + buffer.length) :
    vfileWrite buffer (.cursor c) = .error .capacityOverflow := by
  have hbig : ¬ (Splice.overwrite 0 c.inner.bytes c.pos.toNat buffer).length ≤ isizeMax := by
    rw [Splice.length_overwrite]
    omega
  have hwrite : VFileOps.write buffer (.cursor c) = .error .capacityOverflow := by
    simp only [VFileOps.write, Cursor.write, Splice.overwrite_padTo, Vec.alloc, dif_neg hbig]
    rfl
  rw [vfileWrite, VM.bind_of_error hwrite]

theorem Session.call_map_fault (s : Session) {size : Nat} (flags : BitVec 32)
    (h : isizeMax < size) : s.call (.map size flags) = .error .capacityOverflow := by
  have hzero : zeroedBuffer size (s.ops.moveTo 0) = .error .capacityOverflow := by
    rw [zeroedBuffer, if_neg (by omega)]
    rfl
  have hrun : vfileMap size flags s.ops = .error .capacityOverflow := by
    rw [vfileMap, VM.bind_of_ok (VFileOps.streamPosition_run s.ops), VM.unwrap_ok,
      VM.bind_of_ok (VFileOps.seek_start (VFileOps.seekable_of_le (Nat.zero_le _))),
      VM.assertOk_ok, VM.bind_of_error hzero]
  rw [Session.call, hrun]
  rfl

theorem vfileTruncate_cursor_fault (c : Cursor) {size : Nat} (h : isizeMax < size) :
    vfileTruncate size (.cursor c) = .error .capacityOverflow := by
  have hbig : ¬ (Splice.resize 0 c.inner.bytes size).length ≤ isizeMax := by
    rw [Splice.length_resize]
    omega
  have hresize : VFileOps.resize size (.cursor c) = .error .capacityOverflow := by
    simp only [VFileOps.resize, Cursor.resize, ← Splice.resize_eq, Vec.alloc, dif_neg hbig]
    rfl
  rw [vfileTruncate, VM.bind_of_error hresize]

/-! ## Twin streams -/

/-- A cursor and a writable file over the same bytes, at the same position. -/
def VFileOps.Twins : VFileOps → VFileOps → Prop
  | .cursor c, .file f => f.data = c.inner ∧ f.pos = c.pos.toNat ∧ f.writable = true
  | _, _ => False

/-- Two sessions with twin streams and the same mappings. -/
structure Aligned (s t : Session) : Prop where
  streams : s.ops.Twins t.ops
  maps : t.maps = s.maps
  next : t.next = s.next

theorem Aligned.init (v : Vec) :
    Aligned (Session.init (fromVec v)) (Session.init (fromFile v true)) :=
  ⟨⟨rfl, rfl, rfl⟩, rfl, rfl⟩

/-- The calls on which twins agree, by where the stream stands. -/
def Session.Alike (s : Session) : Call → Prop
  | .seek offset whence =>
      if whence = SEEK_SET then 0 ≤ offset.toInt
      else if whence = SEEK_CUR then s.ops.position + offset.toInt ≤ isizeMax
      else if whence = SEEK_END then s.ops.contents.bytes.length + offset.toInt ≤ isizeMax
      else True
  | .write buffer =>
      -- an empty write fills a vector up to the position, and no file
      if buffer = [] then s.ops.position ≤ s.ops.contents.bytes.length
      else s.ops.position + buffer.length ≤ isizeMax
  | .truncate size => size ≤ isizeMax
  | .sync _ flushed => flushed = true
  | _ => True

section Twins

variable {c : Cursor} {f : File}

open VFileOps (Twins)

theorem seek_twins (h : Twins (.cursor c) (.file f)) (offset : BitVec 64)
    (whence : BitVec 32) :
    Lts.Matches id Twins (vfileSeek offset whence (.cursor c))
        (vfileSeek offset whence (.file f)) ↔
      ∀ u, c.landing offset whence = some u → u ≤ isizeMax := by
  obtain ⟨hdata, hpos, hw⟩ := h
  have hmax := isizeMax_eq
  rw [vfileSeek_run, vfileSeek_file hdata hpos]
  cases hland : c.landing offset whence with
  | none =>
      constructor
      · rintro - u ⟨⟩
      · intro _
        exact .inr ⟨_, _, _, rfl, rfl, hdata, hpos, hw⟩
  | some u =>
      by_cases hle : u ≤ isizeMax
      · constructor
        · rintro - u' ⟨⟩
          exact hle
        · intro _
          refine .inr ⟨_, _, (VFileOps.file f).moveTo u, rfl, ?_, ?_⟩
          · simp only [if_pos hle, asSigned_of_le hle, id]
          · simp only [VFileOps.moveTo, dif_pos hle, Twins]
            refine ⟨hdata, ?_, hw⟩
            rw [BitVec.toNat_ofNat]
            omega
      · -- the cursor goes where the file cannot
        constructor
        · rintro (⟨e, hs, -⟩ | ⟨b, s, t, hs, ht, htwins⟩)
          · cases hs
          · simp only [if_neg hle, Except.ok.injEq, Prod.mk.injEq] at hs ht
            obtain ⟨-, rfl⟩ := hs
            obtain ⟨-, rfl⟩ := ht
            have hland_lt : u < 2 ^ 64 := by
              rcases c.landing_cases offset whence with ⟨t, -, h0, ht, hu⟩ | ⟨-, hu⟩
              · rw [hland] at hu
                cases hu
                omega
              · exact (hu u hland).2
            have hstay : f.pos = (BitVec.ofNat 64 u).toNat := htwins.2.1
            have hfile := f.pos_le
            rw [BitVec.toNat_ofNat, Nat.mod_eq_of_lt hland_lt] at hstay
            omega
        · intro hall
          exact absurd (hall u rfl) hle

theorem read_twins (h : Twins (.cursor c) (.file f)) (size : Nat) :
    Lts.Matches id Twins (vfileRead size (.cursor c)) (vfileRead size (.file f)) := by
  obtain ⟨hdata, hpos, hw⟩ := h
  have hmax := isizeMax_eq
  have hfits := c.inner.fits
  have hlt := c.pos.isLt
  have hfile := f.pos_le
  have hlen := c.inner.length_readAt c.pos.toNat size
  have hgot : f.data.readAt f.pos size = c.inner.readAt c.pos.toNat size := by
    rw [hdata, hpos]
  refine .inr ⟨(asSigned (c.read size).1.length, (c.read size).1), .cursor (c.read size).2,
    .file (f.read size).2, rfl, ?_, hdata, ?_, hw⟩
  · show Except.ok ((asSigned (f.read size).1.length, (f.read size).1), _) = _
    rw [show (f.read size).1 = (c.read size).1 from hgot]
    rfl
  · show f.pos + (f.data.readAt f.pos size).length =
      (c.pos + BitVec.ofNat 64 (c.inner.readAt c.pos.toNat size).length).toNat
    rw [hgot, BitVec.toNat_add, BitVec.toNat_ofNat]
    omega

/-- Where the cursor takes an empty write without growing, so does the file. -/
theorem write_nil_twins (h : Twins (.cursor c) (.file f)) :
    Lts.Matches id Twins (vfileWrite [] (.cursor c)) (vfileWrite [] (.file f)) ↔
      c.pos.toNat ≤ c.inner.bytes.length := by
  obtain ⟨hdata, hpos, hw⟩ := h
  have hfile := f.pos_le
  have hfits := c.inner.fits
  have hend : (Splice.overwrite 0 c.inner.bytes c.pos.toNat []).length ≤ isizeMax := by
    rw [Splice.length_overwrite, List.length_nil]
    omega
  have hnop : f.write [] = .ok (0, f) := by simp [File.write, hw]
  rw [vfileWrite_cursor c hend, vfileWrite_file, hnop]
  constructor
  · rintro (⟨e, hs, -⟩ | ⟨b, s, t, hs, ht, htwins⟩)
    · cases hs
    · cases hs
      cases ht
      -- the padded vector is as long as it was
      have hbytes := congrArg (List.length ∘ Vec.bytes) htwins.1
      simp only [Function.comp, hdata, Splice.length_overwrite, List.length_nil] at hbytes
      omega
  · intro hle
    have hsame : Splice.overwrite 0 c.inner.bytes c.pos.toNat [] = c.inner.bytes := by
      simp [Splice.overwrite, Splice.padTo, List.take_append_of_le_length hle]
    refine .inr ⟨_, _, _, rfl, rfl, ?_, ?_, hw⟩
    · rw [hdata]
      exact Vec.ext hsame.symm
    · rw [hpos]
      simp

/-- A write that is not empty agrees as long as its end is an offset. -/
theorem write_twins (h : Twins (.cursor c) (.file f)) {buffer : List Byte}
    (hne : buffer ≠ []) :
    Lts.Matches id Twins (vfileWrite buffer (.cursor c)) (vfileWrite buffer (.file f)) ↔
      c.pos.toNat + buffer.length ≤ isizeMax := by
  obtain ⟨hdata, hpos, hw⟩ := h
  have hmax := isizeMax_eq
  have hfits := c.inner.fits
  by_cases hroom : c.pos.toNat + buffer.length ≤ isizeMax
  · have hend : (Splice.overwrite 0 c.inner.bytes c.pos.toNat buffer).length ≤ isizeMax := by
      rw [Splice.length_overwrite]
      omega
    have hfile : f.pos + buffer.length ≤ isizeMax := by omega
    refine ⟨fun _ => hroom, fun _ => ?_⟩
    rw [vfileWrite_cursor c hend, vfileWrite_file, f.write_of_fits hne hw hfile]
    refine .inr ⟨_, _, _, rfl, rfl, ?_, ?_, hw⟩
    · apply Vec.ext
      show Splice.overwrite 0 f.data.bytes f.pos buffer = _
      rw [hdata, hpos]
    · show f.pos + buffer.length = (c.pos + BitVec.ofNat 64 buffer.length).toNat
      rw [BitVec.toNat_add, BitVec.toNat_ofNat]
      omega
  · refine ⟨?_, fun hle => absurd hle hroom⟩
    rintro (⟨e, -, ht⟩ | ⟨b, s, t, hs, -, -⟩)
    · -- the file reports, it does not fault
      rw [vfileWrite_file] at ht
      cases ht
    · rw [vfileWrite_cursor_fault c (by omega)] at hs
      cases hs

theorem truncate_twins (h : Twins (.cursor c) (.file f)) (size : Nat) :
    Lts.Matches id Twins (vfileTruncate size (.cursor c)) (vfileTruncate size (.file f)) ↔
      size ≤ isizeMax := by
  obtain ⟨hdata, hpos, hw⟩ := h
  by_cases hsize : size ≤ isizeMax
  · have hend : (Splice.resize 0 c.inner.bytes size).length ≤ isizeMax := by
      rw [Splice.length_resize]
      exact hsize
    refine ⟨fun _ => hsize, fun _ => ?_⟩
    rw [vfileTruncate_cursor c hend, vfileTruncate_file, File.setLen, dif_pos ⟨hw, hsize⟩]
    refine .inr ⟨_, _, _, rfl, rfl, ?_, hpos, hw⟩
    apply Vec.ext
    show Splice.resize 0 f.data.bytes size = _
    rw [hdata]
  · refine ⟨?_, fun hle => absurd hle hsize⟩
    rintro (⟨e, -, ht⟩ | ⟨b, s, t, hs, -, -⟩)
    · cases ht
    · rw [vfileTruncate_cursor_fault c (by omega)] at hs
      cases hs

/-- A seek of a twin stays within the offsets exactly when it is `Alike`. -/
theorem landing_le_iff {s : Session} (hs : s.ops = .cursor c) (hc : c.pos.toNat ≤ isizeMax)
    (offset : BitVec 64) (whence : BitVec 32) :
    (∀ u, c.landing offset whence = some u → u ≤ isizeMax) ↔ s.Alike (.seek offset whence) := by
  have hmax := isizeMax_eq
  have hfits := c.inner.fits
  have hnat := offset.isLt
  have hint := BitVec.toInt_eq_toNat_cond offset
  -- a relative target starts in the lower half, so it stays below `2^64`
  have hrelative : ∀ base : Nat, base ≤ isizeMax →
      ((∀ u, (if 0 ≤ (base : Int) + offset.toInt ∧ (base : Int) + offset.toInt < 2 ^ 64
          then some ((base : Int) + offset.toInt).toNat else none) = some u → u ≤ isizeMax) ↔
        (base : Int) + offset.toInt ≤ isizeMax) := by
    intro base hbase
    have hupper := upperHalf_iff ((base : Int) + offset.toInt) (fun _ => False)
    constructor
    · intro hall
      rcases hupper.mp fun u hu hbig => absurd (hall u hu) (by omega) with hle | hbig | hno
      · exact hle
      · omega
      · exact hno.elim
    · intro hle u hu
      by_contra hbig
      exact hupper.mpr (.inl hle) u hu (by omega)
  simp only [Session.Alike, hs, VFileOps.position, VFileOps.contents]
  by_cases hset : whence = SEEK_SET
  · subst hset
    rw [Cursor.landing_set, if_pos rfl]
    constructor
    · intro hall
      have := hall _ rfl
      omega
    · rintro hpos u ⟨⟩
      omega
  · rw [if_neg hset, Cursor.landing_of_ne hset, seekTarget, if_neg hset]
    by_cases hcur : whence = SEEK_CUR
    · rw [if_pos hcur, if_pos hcur]
      exact hrelative _ hc
    · rw [if_neg hcur, if_neg hcur]
      by_cases hend : whence = SEEK_END
      · rw [if_pos hend, if_pos hend]
        exact hrelative _ hfits
      · rw [if_neg hend, if_neg hend]
        constructor
        · intro _
          trivial
        · rintro - u ⟨⟩

end Twins

/-! ## Sessions on twins -/

section Sessions

variable {s t : Session}

/-- Calls on the stream alone match when the streams do. -/
theorem Aligned.onStream {α : Type} (h : Aligned s t) {run run' : VM α} {answer : α → Answer}
    (injective : ∀ a b, answer a = answer b → a = b) :
    Lts.Matches id Aligned (s.onStream run answer) (t.onStream run' answer) ↔
      Lts.Matches id VFileOps.Twins (run s.ops) (run' t.ops) := by
  cases hs : run s.ops with
  | error e => cases ht : run' t.ops <;> simp [Session.onStream, hs, ht, Lts.Matches, Except.map]
  | ok p =>
      cases ht : run' t.ops with
      | error e => simp [Session.onStream, hs, ht, Lts.Matches, Except.map]
      | ok q =>
          constructor
          · rintro (⟨e, hs', -⟩ | ⟨b, s', t', hs', ht', haligned⟩)
            · simp [Session.onStream, hs, Except.map] at hs'
            · simp only [Session.onStream, hs, ht, Except.map, Except.ok.injEq,
                Prod.mk.injEq, id] at hs' ht'
              obtain ⟨hb, rfl⟩ := hs'
              obtain ⟨hb', rfl⟩ := ht'
              have heq := injective _ _ (hb.trans hb'.symm)
              exact .inr ⟨p.1, p.2, q.2, rfl, by rw [id, heq], haligned.streams⟩
          · rintro (⟨e, ⟨⟩, -⟩ | ⟨b, ops, ops', hs', ht', htwins⟩)
            cases hs'
            cases ht'
            refine .inr ⟨answer b, { s with ops := ops }, { t with ops := ops' }, ?_, ?_,
              htwins, h.maps, h.next⟩
            · rw [Session.onStream, hs]
              rfl
            · rw [Session.onStream, ht]
              rfl

theorem Aligned.contents (h : Aligned s t) : t.ops.contents = s.ops.contents := by
  have htwins := h.streams
  cases hs : s.ops <;> cases ht : t.ops <;> simp_all [VFileOps.Twins, VFileOps.contents]

theorem Aligned.setMap (h : Aligned s t) (ptr : Nat) (buf : Option Vec) :
    Aligned (s.setMap ptr buf) (t.setMap ptr buf) :=
  ⟨h.streams, by simp only [Session.setMap_maps, h.maps], h.next⟩

theorem Aligned.addMap (h : Aligned s t) (buf : Vec) :
    Aligned (s.addMap buf) (t.addMap buf) :=
  ⟨h.streams, by simp only [Session.addMap, h.maps, h.next],
    by simp only [Session.addMap, h.next]⟩

theorem Aligned.setContents (h : Aligned s t) (v : Vec) :
    Aligned { s with ops := s.ops.setContents v } { t with ops := t.ops.setContents v } := by
  refine ⟨?_, h.maps, h.next⟩
  have htwins := h.streams
  cases hs : s.ops <;> cases ht : t.ops <;>
    simp_all [VFileOps.Twins, VFileOps.setContents]

theorem map_aligned (h : Aligned s t) (size : Nat) (flags : BitVec 32) :
    Lts.Matches id Aligned (s.call (.map size flags)) (t.call (.map size flags)) := by
  by_cases hsize : size ≤ isizeMax
  · rw [Session.call_map s hsize, Session.call_map t hsize, h.contents, h.next]
    by_cases hlen : size ≤ s.ops.contents.bytes.length
    · rw [if_pos hlen, if_pos hlen]
      exact .inr ⟨_, _, _, rfl, rfl, h.addMap _⟩
    · rw [if_neg hlen, if_neg hlen]
      exact .inr ⟨_, _, _, rfl, rfl, h⟩
  · left
    exact ⟨.capacityOverflow, s.call_map_fault flags (by omega), t.call_map_fault flags (by omega)⟩

theorem poke_aligned (h : Aligned s t) (ptr i : Nat) (b : Byte) :
    Lts.Matches id Aligned (s.call (.poke ptr i b)) (t.call (.poke ptr i b)) := by
  simp only [Session.call, h.maps]
  cases s.maps ptr with
  | none => exact .inl ⟨_, rfl, rfl⟩
  | some buf =>
      by_cases hi : i < buf.bytes.length
      · simp only [if_pos hi]
        exact .inr ⟨_, _, _, rfl, rfl, h.setMap _ _⟩
      · simp only [if_neg hi]
        exact .inl ⟨_, rfl, rfl⟩

theorem unmap_aligned (h : Aligned s t) (ptr : Nat) :
    Lts.Matches id Aligned (s.call (.unmap ptr)) (t.call (.unmap ptr)) := by
  cases hbuf : s.maps ptr with
  | none =>
      left
      refine ⟨.badPointer, ?_, ?_⟩
      · simp only [Session.call, hbuf]
      · simp only [Session.call, h.maps, hbuf]
  | some buf =>
      have hws : s.ops.writable = true ∧ t.ops.writable = true := by
        have htwins := h.streams
        cases hs : s.ops <;> cases ht : t.ops <;>
          simp_all [VFileOps.Twins, VFileOps.writable]
      have hsplice : t.ops.spliced buf = s.ops.spliced buf := by
        apply Vec.ext
        show Splice.overwrite 0 t.ops.contents.bytes 0 buf.bytes = _
        rw [h.contents]
        rfl
      rw [Session.call_unmap hbuf, Session.call_unmap (h.maps ▸ hbuf), if_pos (.inr hws.1),
        if_pos (.inr hws.2), hsplice]
      exact .inr ⟨_, _, _, rfl, rfl, (h.setContents _).setMap ptr none⟩

/-- On twins a call has the same outcome exactly when it is `Alike`. -/
theorem call_aligned_iff (h : Aligned s t) (call : Call) :
    Lts.Matches id Aligned (s.call call) (t.call call) ↔ s.Alike call := by
  obtain ⟨c, hs⟩ : ∃ c, s.ops = .cursor c := by
    have htwins := h.streams
    cases hs : s.ops with
    | cursor c => exact ⟨c, rfl⟩
    | file f => simp_all [VFileOps.Twins]
  obtain ⟨f, ht⟩ : ∃ f, t.ops = .file f := by
    have htwins := h.streams
    cases ht : t.ops with
    | cursor c => simp_all [VFileOps.Twins]
    | file f => exact ⟨f, rfl⟩
  have htwins : VFileOps.Twins (.cursor c) (.file f) := hs ▸ ht ▸ h.streams
  cases call with
  | seek offset whence =>
      have hc : c.pos.toNat ≤ isizeMax := htwins.2.1 ▸ f.pos_le
      rw [Session.call, Session.call, h.onStream (by simp), hs, ht, seek_twins htwins,
        landing_le_iff hs hc]
  | read size =>
      rw [Session.call, Session.call, h.onStream (by simp [Prod.ext_iff]), hs, ht]
      exact iff_of_true (read_twins htwins size) trivial
  | write buffer =>
      rw [Session.call, Session.call, h.onStream (by simp), hs, ht]
      simp only [Session.Alike, hs, VFileOps.position, VFileOps.contents]
      by_cases hnil : buffer = []
      · subst hnil
        rw [if_pos rfl, write_nil_twins htwins]
      · rw [if_neg hnil, write_twins htwins hnil]
  | truncate size =>
      rw [Session.call, Session.call, h.onStream (by simp), hs, ht]
      exact truncate_twins htwins size
  | size =>
      rw [Session.call_size, Session.call_size, h.contents]
      exact iff_of_true (.inr ⟨_, _, _, rfl, rfl, h⟩) trivial
  | map size flags => exact iff_of_true (map_aligned h size flags) trivial
  | poke ptr i b => exact iff_of_true (poke_aligned h ptr i b) trivial
  | unmap ptr => exact iff_of_true (unmap_aligned h ptr) trivial
  | sync ptr flushed =>
      rw [Session.call, Session.call, h.maps, h.onStream (by simp), hs, ht, vfileSync_run,
        vfileSync_run]
      simp [Lts.Matches, Session.Alike, htwins]

end Sessions

/-- Whether the stream can be made `n` bytes long. A vector that cannot
panics; a file reports an error. -/
def VFileOps.GrowsTo (n : Nat) : VFileOps → Prop
  | .cursor _ => n ≤ isizeMax
  | .file _ => True

/-- The calls that return, by where the session stands. -/
def Session.Survives (s : Session) : Call → Prop
  | .write buffer => s.ops.GrowsTo (s.ops.position + buffer.length)
  | .truncate size => s.ops.GrowsTo size
  | .map size _ => size ≤ isizeMax
  | .poke ptr i _ => ∃ buf, s.maps ptr = some buf ∧ i < buf.bytes.length
  | .unmap ptr => ∃ buf, s.maps ptr = some buf ∧ (buf.bytes = [] ∨ s.ops.writable = true)
  | _ => True

theorem Session.onStream_ok_iff {α : Type} (s : Session) (run : VM α) (answer : α → Answer) :
    (∃ a s', s.onStream run answer = .ok (a, s')) ↔ ∃ r ops, run s.ops = .ok (r, ops) := by
  constructor
  · rintro ⟨a, s', h⟩
    obtain ⟨r, ops, hrun, -, -⟩ := onStream_cases h
    exact ⟨r, ops, hrun⟩
  · rintro ⟨r, ops, hrun⟩
    exact ⟨_, _, onStream_of_run hrun⟩

theorem vfileSeek_returns (offset : BitVec 64) (whence : BitVec 32) (ops : VFileOps) :
    ∃ r ops', vfileSeek offset whence ops = .ok (r, ops') := by
  have hseekTo : ∀ w, ∃ r ops', vfileSeek.seekTo w ops = .ok (r, ops') := by
    intro w
    obtain ⟨r, ops', hseek⟩ : ∃ r ops', VFileOps.seek w ops = .ok (r, ops') := by
      cases ops with
      | cursor c => exact ⟨_, _, rfl⟩
      | file f => exact ⟨_, _, rfl⟩
    rw [vfileSeek.seekTo, VM.bind_of_ok hseek]
    cases r <;> exact ⟨_, _, rfl⟩
  unfold vfileSeek
  split
  · exact hseekTo _
  · split
    · exact hseekTo _
    · split
      · exact hseekTo _
      · exact ⟨_, _, rfl⟩

theorem vfileWrite_returns_iff (buffer : List Byte) (ops : VFileOps) :
    (∃ r ops', vfileWrite buffer ops = .ok (r, ops')) ↔
      ops.GrowsTo (ops.position + buffer.length) := by
  cases ops with
  | cursor c =>
      by_cases hroom : c.pos.toNat + buffer.length ≤ isizeMax
      · have hfits := c.inner.fits
        have hend : (Splice.overwrite 0 c.inner.bytes c.pos.toNat buffer).length ≤ isizeMax := by
          rw [Splice.length_overwrite]
          omega
        exact iff_of_true ⟨_, _, vfileWrite_cursor c hend⟩ hroom
      · refine iff_of_false ?_ hroom
        rw [vfileWrite_cursor_fault c (by omega)]
        rintro ⟨r, ops', ⟨⟩⟩
  | file f =>
      refine iff_of_true ?_ trivial
      rw [vfileWrite_file]
      exact ⟨_, _, rfl⟩

theorem vfileTruncate_returns_iff (size : Nat) (ops : VFileOps) :
    (∃ r ops', vfileTruncate size ops = .ok (r, ops')) ↔ ops.GrowsTo size := by
  cases ops with
  | cursor c =>
      by_cases hsize : size ≤ isizeMax
      · have hend : (Splice.resize 0 c.inner.bytes size).length ≤ isizeMax := by
          rw [Splice.length_resize]
          exact hsize
        exact iff_of_true ⟨_, _, vfileTruncate_cursor c hend⟩ hsize
      · refine iff_of_false ?_ hsize
        rw [vfileTruncate_cursor_fault c (by omega)]
        rintro ⟨r, ops', ⟨⟩⟩
  | file f => exact iff_of_true ⟨_, _, vfileTruncate_file f size⟩ trivial

theorem call_ok_iff (s : Session) (call : Call) :
    (∃ a s', s.call call = .ok (a, s')) ↔ s.Survives call := by
  cases call with
  | seek offset whence =>
      rw [Session.call, Session.onStream_ok_iff]
      exact iff_of_true (vfileSeek_returns offset whence s.ops) trivial
  | read size =>
      rw [Session.call, Session.onStream_ok_iff]
      refine iff_of_true ?_ trivial
      cases s.ops <;> exact ⟨_, _, rfl⟩
  | write buffer => rw [Session.call, Session.onStream_ok_iff, vfileWrite_returns_iff]; rfl
  | truncate size => rw [Session.call, Session.onStream_ok_iff, vfileTruncate_returns_iff]; rfl
  | size => exact iff_of_true ⟨_, _, s.call_size⟩ trivial
  | map size flags =>
      constructor
      · rintro ⟨a, s', h⟩
        exact Session.call_map_fits h
      · intro h
        rw [s.call_map h flags]
        split <;> exact ⟨_, _, rfl⟩
  | poke ptr i b =>
      constructor
      · rintro ⟨a, s', h⟩
        obtain ⟨buf, hbuf, hi, -⟩ := Session.call_poke_cases h
        exact ⟨buf, hbuf, hi⟩
      · rintro ⟨buf, hbuf, hi⟩
        exact ⟨_, _, Session.call_poke hbuf hi b⟩
  | unmap ptr =>
      cases hbuf : s.maps ptr with
      | none => simp [Session.call, Session.Survives, hbuf]
      | some buf =>
          rw [Session.call_unmap hbuf]
          simp only [Session.Survives, hbuf, Option.some.injEq, exists_eq_left']
          by_cases hok : buf.bytes = [] ∨ s.ops.writable = true
          · exact iff_of_true ⟨_, _, by rw [if_pos hok]⟩ hok
          · refine iff_of_false ?_ hok
            rw [if_neg hok]
            rintro ⟨a, s', ⟨⟩⟩
  | sync ptr flushed =>
      rw [Session.call, Session.onStream_ok_iff]
      exact iff_of_true ⟨_, _, vfileSync_run _ flushed s.ops⟩ trivial

/-- **Aborts.** On a vector, a file open for writing or one open for reading,
a session goes through exactly when every call of it is one that survives. -/
theorem session_survives_iff (s : Session) (calls : List Call) :
    (∃ answers s', Lts.exec Session.call s calls = .ok (answers, s')) ↔
      Lts.Throughout Session.Survives Session.call s calls :=
  Lts.exec_ok_iff call_ok_iff s calls

/-! ## Files opened read-only -/

/-- Who reads a file and nothing else: where it stands, and the next address
of a mapping. -/
structure Reader where
  pos : Nat
  next : Nat
deriving DecidableEq, Repr

/-- Where a seek from position `p` in `data` leads, if there is such an
offset. -/
def Reader.target (data : Vec) (p : Nat) (offset : BitVec 64) (whence : BitVec 32) : Option Nat :=
  let origin : Option Nat :=
    if whence = SEEK_SET then some 0
    else if whence = SEEK_CUR then some p
    else if whence = SEEK_END then some data.bytes.length
    else none
  origin.bind fun base =>
    if 0 ≤ (base : Int) + offset.toInt ∧ (base : Int) + offset.toInt ≤ isizeMax then
      some ((base : Int) + offset.toInt).toNat
    else none

/-- What a reader of `data` is answered: reads and mappings give its bytes,
writes are refused, and nothing else has an effect. -/
def Reader.call (data : Vec) (r : Reader) : Call → Answer × Reader
  | .seek offset whence =>
      match Reader.target data r.pos offset whence with
      | some u => (.int u, { r with pos := u })
      | none => (.int (-1), r)
  | .read size =>
      let got := data.readAt r.pos size
      (.bytes got.length got, { r with pos := r.pos + got.length })
  | .write _ => (.int (-1), r)
  | .truncate _ => (.unit, r)
  | .size => (.int data.bytes.length, r)
  | .map size _ =>
      if size ≤ data.bytes.length then
        (.pointer (some (r.next, data.bytes.take size)), { r with next := r.next + 1 })
      else (.pointer none, r)
  | .poke _ _ _ => (.unit, r)
  | .unmap _ => (.unit, r)
  | .sync _ flushed => (.flag flushed, r)

/-- The session's stream is a read-only file over `data`, and it stands where
the reader does. -/
structure Session.Reads (data : Vec) (s : Session) (r : Reader) : Prop where
  stream : ∃ f, s.ops = .file f ∧ f.data = data ∧ f.writable = false ∧ f.pos = r.pos
  next : s.next = r.next

/-- A reader goes where a cursor does, as far as there are offsets. -/
theorem Reader.target_eq (c : Cursor) (offset : BitVec 64) (whence : BitVec 32) :
    Reader.target c.inner c.pos.toNat offset whence =
      (c.landing offset whence).filter (· ≤ isizeMax) := by
  have hmax := isizeMax_eq
  have hfits := c.inner.fits
  have hnat := offset.isLt
  have hint := BitVec.toInt_eq_toNat_cond offset
  have hrelative : ∀ t : Int,
      (if 0 ≤ t ∧ t ≤ isizeMax then some t.toNat else none) =
        (if 0 ≤ t ∧ t < 2 ^ 64 then some t.toNat else none).filter (· ≤ isizeMax) := by
    intro t
    by_cases hwide : 0 ≤ t ∧ t < 2 ^ 64
    · rw [if_pos hwide]
      by_cases hle : t ≤ isizeMax
      · have hle' : t.toNat ≤ isizeMax := by omega
        rw [if_pos ⟨hwide.1, hle⟩, Option.filter_some, decide_eq_true hle', if_pos rfl]
      · have hle' : ¬ t.toNat ≤ isizeMax := by omega
        rw [if_neg (fun h => hle h.2), Option.filter_some, decide_eq_false hle',
          if_neg Bool.false_ne_true]
    · rw [if_neg hwide, if_neg (by omega)]
      rfl
  simp only [Reader.target]
  by_cases hset : whence = SEEK_SET
  · -- from `2^63` on the offset is negative as a signed one
    subst hset
    rw [Cursor.landing_set, if_pos rfl, Option.bind_some, Option.filter_some]
    by_cases hle : offset.toNat ≤ isizeMax
    · have hrange : (0 : Int) ≤ ((0 : Nat) : Int) + offset.toInt ∧
          ((0 : Nat) : Int) + offset.toInt ≤ isizeMax := by omega
      have heq : (((0 : Nat) : Int) + offset.toInt).toNat = offset.toNat := by omega
      rw [if_pos hrange, heq, decide_eq_true hle, if_pos rfl]
    · rw [if_neg (by omega), decide_eq_false hle, if_neg Bool.false_ne_true]
  · rw [if_neg hset, Cursor.landing_of_ne hset, seekTarget, if_neg hset]
    by_cases hcur : whence = SEEK_CUR
    · rw [if_pos hcur, if_pos hcur, Option.bind_some, hrelative]
      rfl
    · rw [if_neg hcur, if_neg hcur]
      by_cases hend : whence = SEEK_END
      · rw [if_pos hend, if_pos hend, Option.bind_some, hrelative]
        rfl
      · rw [if_neg hend, if_neg hend]
        rfl

/-- A read-only file is sought as its reader is. -/
theorem vfileSeek_reader (f : File) (offset : BitVec 64) (whence : BitVec 32) :
    vfileSeek offset whence (.file f) = .ok
      (match Reader.target f.data f.pos offset whence with
        | some u => ((u : Int), (VFileOps.file f).moveTo u)
        | none => (-1, .file f)) := by
  have hmax := isizeMax_eq
  have hle := f.pos_le
  have hpos : f.pos = (BitVec.ofNat 64 f.pos).toNat := by
    rw [BitVec.toNat_ofNat, Nat.mod_eq_of_lt (by omega)]
  have htarget := Reader.target_eq ⟨f.data, BitVec.ofNat 64 f.pos⟩ offset whence
  rw [← hpos] at htarget
  rw [vfileSeek_file (c := ⟨f.data, BitVec.ofNat 64 f.pos⟩) rfl hpos, htarget]
  cases Cursor.landing ⟨f.data, BitVec.ofNat 64 f.pos⟩ offset whence with
  | none => rfl
  | some u =>
      rw [Option.filter_some]
      by_cases hu : u ≤ isizeMax
      · simp only [if_pos hu, decide_eq_true hu, if_true]
      · simp only [if_neg hu, decide_eq_false hu, Bool.false_eq_true, if_false]

theorem Reader.target_le {data : Vec} {p : Nat} {offset : BitVec 64} {whence : BitVec 32} {u : Nat}
    (h : Reader.target data p offset whence = some u) : u ≤ isizeMax := by
  obtain ⟨base, -, hbase⟩ := Option.bind_eq_some_iff.mp h
  split at hbase
  · rename_i hrange
    cases hbase
    omega
  · cases hbase

/-- Every call that goes through answers as the reader is answered. -/
theorem Session.Reads.call {data : Vec} {s s' : Session} {r : Reader} {call : Call} {a : Answer}
    (h : s.Reads data r) (hcall : s.call call = .ok (a, s')) :
    a = (r.call data call).1 ∧ s'.Reads data (r.call data call).2 := by
  obtain ⟨⟨f, hs, rfl, hw, hpos⟩, hnext⟩ := h
  have hcontents : s.ops.contents = f.data := by rw [hs]; rfl
  cases call with
  | seek offset whence =>
      obtain ⟨v, ops, hrun, rfl, rfl⟩ := onStream_cases hcall
      rw [hs, vfileSeek_reader, hpos] at hrun
      simp only [Reader.call]
      cases htarget : Reader.target f.data r.pos offset whence with
      | none =>
          rw [htarget] at hrun
          cases hrun
          exact ⟨rfl, ⟨f, rfl, rfl, hw, hpos⟩, hnext⟩
      | some u =>
          have hu := Reader.target_le htarget
          simp only [htarget, VFileOps.moveTo, dif_pos hu] at hrun
          cases hrun
          exact ⟨rfl, ⟨_, rfl, rfl, hw, rfl⟩, hnext⟩
  | read size =>
      rw [Session.call] at hcall
      obtain ⟨v, ops, hrun, rfl, rfl⟩ := onStream_cases hcall
      rw [hs] at hrun
      cases hrun
      have hfits : (f.data.readAt f.pos size).length ≤ isizeMax := (f.data.slice f.pos size).fits
      refine ⟨?_, ⟨f.advance size, rfl, rfl, hw, ?_⟩, hnext⟩
      · show Answer.bytes (asSigned (f.data.readAt f.pos size).length) (f.data.readAt f.pos size) =
          Answer.bytes _ _
        rw [asSigned_of_le hfits, hpos]
      · show f.pos + (f.data.readAt f.pos size).length = r.pos + _
        rw [hpos]
  | write buffer =>
      obtain ⟨v, ops, hrun, rfl, rfl⟩ := onStream_cases hcall
      rw [hs, vfileWrite_file, File.write, if_pos hw] at hrun
      cases hrun
      exact ⟨rfl, ⟨f, rfl, rfl, hw, hpos⟩, hnext⟩
  | truncate size =>
      rw [Session.call] at hcall
      obtain ⟨v, ops, hrun, rfl, rfl⟩ := onStream_cases hcall
      have hno : ¬ (f.writable = true ∧ size ≤ isizeMax) := by simp [hw]
      rw [hs, vfileTruncate_file, File.setLen, dif_neg hno] at hrun
      cases hrun
      exact ⟨rfl, ⟨f, rfl, rfl, hw, hpos⟩, hnext⟩
  | size =>
      rw [call_size, hcontents] at hcall
      cases hcall
      exact ⟨rfl, ⟨f, hs, rfl, hw, hpos⟩, hnext⟩
  | map size flags =>
      rw [call_map s (call_map_fits hcall), hcontents, hnext] at hcall
      simp only [Reader.call]
      by_cases hlen : size ≤ f.data.bytes.length
      · rw [if_pos hlen] at hcall ⊢
        cases hcall
        exact ⟨rfl, ⟨f, hs, rfl, hw, hpos⟩, congrArg (· + 1) hnext⟩
      · rw [if_neg hlen] at hcall ⊢
        cases hcall
        exact ⟨rfl, ⟨f, hs, rfl, hw, hpos⟩, hnext⟩
  | poke ptr i b =>
      obtain ⟨buf, hbuf, hi, -⟩ := call_poke_cases hcall
      rw [call_poke hbuf hi] at hcall
      cases hcall
      exact ⟨rfl, ⟨f, hs, rfl, hw, hpos⟩, hnext⟩
  | unmap ptr =>
      obtain ⟨buf, hbuf, hok⟩ := (call_ok_iff s (.unmap ptr)).mp ⟨_, _, hcall⟩
      rw [call_unmap hbuf, if_pos hok] at hcall
      cases hcall
      -- only an empty mapping can be given back
      have hnil : buf.bytes = [] := by
        refine hok.resolve_right ?_
        rw [hs]
        exact Bool.eq_false_iff.mp hw
      have hsame : s.ops.spliced buf = f.data := by
        apply Vec.ext
        show Splice.overwrite 0 s.ops.contents.bytes 0 buf.bytes = f.data.bytes
        rw [hnil, hcontents]
        simp [Splice.overwrite_zero]
      refine ⟨rfl, ⟨f, ?_, rfl, hw, hpos⟩, hnext⟩
      rw [setMap_ops, hsame, hs]
      rfl
  | sync ptr flushed =>
      obtain ⟨v, ops, hrun, rfl, rfl⟩ := onStream_cases hcall
      rw [vfileSync_run, hs] at hrun
      cases hrun
      exact ⟨rfl, ⟨f, rfl, rfl, hw, hpos⟩, hnext⟩

theorem patched_run :
    ∃ s, Lts.exec Session.call (Session.init (fromFile ⟨[1, 2, 3], by decide⟩ false))
        [.read 2, .write [9], .truncate 1, .map 2 1, .poke 0 0 9, .read 5, .seek (-2) SEEK_END,
          .read 1, .seek (-1) SEEK_SET, .read 9] =
      .ok ([.bytes 2 [1, 2], .int (-1), .unit, .pointer (some (0, [1, 2])), .unit,
        .bytes 1 [3], .int 1, .bytes 1 [2], .int (-1), .bytes 1 [3]], s) := ⟨_, rfl⟩

end MgbaRs
