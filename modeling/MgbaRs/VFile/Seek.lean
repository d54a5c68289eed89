import MgbaRs.VFile.Model

/-!
# Seeking an in-memory `VFile`

`vfile_seek` casts the signed `off_t` it is given to the argument of one of
three `SeekFrom` origins and casts the new position back. A cursor accepts
every `u64` position, so a target from `2^63` on is reached and then reported
as a negative number, and a negative `SEEK_SET` offset is such a target.

`Cursor.landing` is where a seek really leaves the cursor; `SeekContract` is
what a caller relies on, and `vfileSeek_contract_iff` the exact condition
(`SeekFits`) under which it gets that.
-/

namespace MgbaRs

/-- Where a seek is asked to go, over the integers; nothing for a `whence`
that is none of the three. -/
def seekTarget (c : Cursor) (offset : BitVec 64) (whence : BitVec 32) : Option Int :=
  if whence = SEEK_SET then some offset.toInt
  else if whence = SEEK_CUR then some (c.pos.toNat + offset.toInt)
  else if whence = SEEK_END then some (c.inner.bytes.length + offset.toInt)
  else none

/-- A target in `0..2^63-1` is answered and reached; any other request
answers -1 and moves nothing. A negative answer means nothing moved, and the
contents never change. -/
def SeekContract (c : Cursor) (offset : BitVec 64) (whence : BitVec 32) : Prop :=
  ∃ r c', vfileSeek offset whence (.cursor c) = .ok (r, .cursor c') ∧
    c'.inner = c.inner ∧
    (∀ t, seekTarget c offset whence = some t → 0 ≤ t → t ≤ isizeMax →
      r = t ∧ (c'.pos.toNat : Int) = t) ∧
    ((∀ t, seekTarget c offset whence = some t → ¬ (0 ≤ t ∧ t ≤ isizeMax)) →
      r = -1 ∧ c'.pos = c.pos) ∧
    (r < 0 → c'.pos = c.pos)

/-- The requests that do not end in the upper half of the `u64` range. The
last position of all, `2^64 - 1`, reads back as -1, so asking to stay there
is harmless. -/
def SeekFits (c : Cursor) (offset : BitVec 64) (whence : BitVec 32) : Prop :=
  if whence = SEEK_SET then
    0 ≤ offset.toInt ∨ (offset.toInt = -1 ∧ c.pos.toNat = 2 ^ 64 - 1)
  else if whence = SEEK_CUR then
    c.pos.toNat + offset.toInt ≤ isizeMax ∨ 2 ^ 64 ≤ c.pos.toNat + offset.toInt ∨
      (offset.toInt = 0 ∧ c.pos.toNat = 2 ^ 64 - 1)
  else if whence = SEEK_END then c.inner.bytes.length + offset.toInt ≤ isizeMax
  else True

/-- The position a seek leaves the cursor at; `none` when it is refused. -/
def Cursor.landing (c : Cursor) (offset : BitVec 64) (whence : BitVec 32) : Option Nat :=
  if whence = SEEK_SET then some offset.toNat
  else match seekTarget c offset whence with
    | some t => if 0 ≤ t ∧ t < 2 ^ 64 then some t.toNat else none
    | none => none

/-- `vfile_seek` answers the landing as an `off_t`, or -1. -/
theorem vfileSeek_run (c : Cursor) (offset : BitVec 64) (whence : BitVec 32) :
    vfileSeek offset whence (.cursor c) = .ok
      (match c.landing offset whence with
        | some u => (asSigned u, .cursor { c with pos := BitVec.ofNat 64 u })
        | none => (-1, .cursor c)) := by
  have hrel : ∀ (w : SeekFrom) (base : Nat),
      c.seek w = Cursor.seek.relative c base offset.toInt →
      vfileSeek.seekTo w (.cursor c) = .ok
        (match (if 0 ≤ (base : Int) + offset.toInt ∧ (base : Int) + offset.toInt < 2 ^ 64
            then some ((base : Int) + offset.toInt).toNat else none) with
          | some u => (asSigned u, .cursor { c with pos := BitVec.ofNat 64 u })
          | none => (-1, .cursor c)) := by
    intro w base hw
    have hrun : VFileOps.seek w (.cursor c) =
        .ok (VFileOps.settle .cursor c (Cursor.seek.relative c base offset.toInt)) := by
      rw [VFileOps.seek, hw]
    rw [vfileSeek.seekTo, VM.bind_of_ok hrun, Cursor.seek.relative]
    by_cases hrange : 0 ≤ (base : Int) + offset.toInt ∧ (base : Int) + offset.toInt < 2 ^ 64
    · rw [if_pos hrange, if_pos hrange]
      rfl
    · rw [if_neg hrange, if_neg hrange]
      rfl
  unfold vfileSeek Cursor.landing seekTarget
  by_cases hset : whence = SEEK_SET
  · rw [if_pos hset, if_pos hset]
    rfl
  · rw [if_neg hset, if_neg hset, if_neg hset]
    by_cases hcur : whence = SEEK_CUR
    · rw [if_pos hcur, if_pos hcur]
      exact hrel (.current offset.toInt) c.pos.toNat rfl
    · rw [if_neg hcur, if_neg hcur]
      by_cases hend : whence = SEEK_END
      · rw [if_pos hend, if_pos hend]
        exact hrel (.fromEnd offset.toInt) c.inner.bytes.length rfl
      · rw [if_neg hend, if_neg hend]
        rfl

theorem Cursor.landing_set (c : Cursor) (offset : BitVec 64) :
    c.landing offset SEEK_SET = some offset.toNat := if_pos rfl

/-- Away from `SEEK_SET` the landing is the target, as far as `u64` goes. -/
theorem Cursor.landing_of_ne {whence : BitVec 32} (hset : whence ≠ SEEK_SET) (c : Cursor)
    (offset : BitVec 64) :
    c.landing offset whence = (seekTarget c offset whence).bind
      fun t => if 0 ≤ t ∧ t < 2 ^ 64 then some t.toNat else none := by
  rw [landing, if_neg hset]
  cases seekTarget c offset whence <;> rfl

/-- The landing agrees with the target when the target is representable, and
otherwise is refused or lies in the upper half. -/
theorem Cursor.landing_cases (c : Cursor) (offset : BitVec 64) (whence : BitVec 32) :
    (∃ t, seekTarget c offset whence = some t ∧ 0 ≤ t ∧ t ≤ isizeMax ∧
      c.landing offset whence = some t.toNat) ∨
    ((∀ t, seekTarget c offset whence = some t → ¬ (0 ≤ t ∧ t ≤ isizeMax)) ∧
      ∀ u, c.landing offset whence = some u → isizeMax < u ∧ u < 2 ^ 64) := by
  have hmax := isizeMax_eq
  by_cases hset : whence = SEEK_SET
  · subst hset
    have hnat := offset.isLt
    have hint := BitVec.toInt_eq_toNat_cond offset
    rw [show seekTarget c offset SEEK_SET = some offset.toInt from if_pos rfl,
      landing_set]
    by_cases hpos : 0 ≤ offset.toInt
    · left
      refine ⟨_, rfl, hpos, ?_, ?_⟩
      · omega
      · congr 1
        omega
    · right
      constructor
      · rintro t ⟨⟩ ⟨h0, -⟩
        exact hpos h0
      · rintro u ⟨⟩
        omega
  · rw [landing_of_ne hset]
    cases htarget : seekTarget c offset whence with
    | none =>
        right
        constructor
        · rintro t ⟨⟩
        · rintro u ⟨⟩
    | some t =>
        rw [Option.bind_some]
        by_cases hrange : 0 ≤ t ∧ t < 2 ^ 64
        · rw [if_pos hrange]
          by_cases hle : t ≤ isizeMax
          · exact Or.inl ⟨t, rfl, hrange.1, hle, rfl⟩
          · right
            constructor
            · rintro t' ⟨⟩ ⟨-, h'⟩
              exact hle h'
            · rintro u ⟨⟩
              omega
        · rw [if_neg hrange]
          right
          constructor
          · rintro t' ⟨⟩ ⟨h0, hle⟩
            exact hrange ⟨h0, by omega⟩
          · rintro u ⟨⟩

/-- What a relative seek must satisfy for its upper-half landings to be `Q`. -/
theorem upperHalf_iff (t : Int) (Q : Nat → Prop) :
    (∀ u, (if 0 ≤ t ∧ t < 2 ^ 64 then some t.toNat else none) = some u → isizeMax < u → Q u) ↔
      (t ≤ isizeMax ∨ 2 ^ 64 ≤ t ∨ Q t.toNat) := by
  have hmax := isizeMax_eq
  by_cases hrange : 0 ≤ t ∧ t < 2 ^ 64
  · rw [if_pos hrange]
    constructor
    · intro h
      by_cases hbig : isizeMax < t.toNat
      · exact Or.inr (Or.inr (h _ rfl hbig))
      · left
        omega
    · rintro h u ⟨⟩ hbig
      rcases h with h | h | h
      · omega
      · omega
      · exact h
  · rw [if_neg hrange]
    constructor
    · intro _
      omega
    · rintro - u ⟨⟩

/-- What the requests that fit have in common: a landing in the upper half is
only allowed to be the last position, by a cursor already there. -/
theorem seekFits_iff (c : Cursor) (offset : BitVec 64) (whence : BitVec 32) :
    SeekFits c offset whence ↔ ∀ u, c.landing offset whence = some u → isizeMax < u →
      u = 2 ^ 64 - 1 ∧ c.pos.toNat = 2 ^ 64 - 1 := by
  have hpos := c.pos.isLt
  have hnat := offset.isLt
  have hint := BitVec.toInt_eq_toNat_cond offset
  have hfits := c.inner.fits
  have hmax := isizeMax_eq
  unfold SeekFits
  by_cases hset : whence = SEEK_SET
  · subst hset
    rw [Cursor.landing_set, if_pos rfl]
    constructor
    · rintro h u ⟨⟩ hu
      omega
    · intro h
      have := h _ rfl
      omega
  · rw [Cursor.landing_of_ne hset, if_neg hset, seekTarget, if_neg hset]
    by_cases hcur : whence = SEEK_CUR
    · rw [if_pos hcur, if_pos hcur, Option.bind_some, upperHalf_iff]
      omega
    · rw [if_neg hcur, if_neg hcur]
      by_cases hend : whence = SEEK_END
      · rw [if_pos hend, if_pos hend, Option.bind_some, upperHalf_iff]
        omega
      · rw [if_neg hend, if_neg hend]
        constructor
        · rintro - u ⟨⟩
        · intro _
          trivial

/-- A representable target is reached and answered. -/
theorem seekContract_reached {c : Cursor} {offset : BitVec 64} {whence : BitVec 32} {t : Int}
    (ht : seekTarget c offset whence = some t) (h0 : 0 ≤ t) (hle : t ≤ isizeMax)
    (hland : c.landing offset whence = some t.toNat) : SeekContract c offset whence := by
  have hmax := isizeMax_eq
  have hu : t.toNat ≤ isizeMax := by omega
  have hsmall : t.toNat < 2 ^ 64 := by omega
  unfold SeekContract
  rw [vfileSeek_run, hland]
  refine ⟨_, _, rfl, rfl, ?_, ?_, ?_⟩
  · intro t' ht' _ _
    rw [ht] at ht'
    cases ht'
    rw [asSigned_of_le hu, BitVec.toNat_ofNat, Nat.mod_eq_of_lt hsmall]
    omega
  · intro hno
    exact absurd ⟨h0, hle⟩ (hno t ht)
  · intro hneg
    rw [asSigned_of_le hu] at hneg
    omega

/-- A refused seek answers -1 and leaves the cursor as it was. -/
theorem seekContract_refused {c : Cursor} {offset : BitVec 64} {whence : BitVec 32}
    (hout : ∀ t, seekTarget c offset whence = some t → ¬ (0 ≤ t ∧ t ≤ isizeMax))
    (hland : c.landing offset whence = none) : SeekContract c offset whence := by
  unfold SeekContract
  rw [vfileSeek_run, hland]
  refine ⟨_, _, rfl, rfl, ?_, ?_, ?_⟩
  · intro t ht h0 hle
    exact absurd ⟨h0, hle⟩ (hout t ht)
  · intro _
    exact ⟨rfl, rfl⟩
  · intro _
    rfl

/-- A landing in the upper half is right only when the cursor does not move. -/
theorem seekContract_upper_iff {c : Cursor} {offset : BitVec 64} {whence : BitVec 32} {u : Nat}
    (hout : ∀ t, seekTarget c offset whence = some t → ¬ (0 ≤ t ∧ t ≤ isizeMax))
    (hland : c.landing offset whence = some u) (hbig : isizeMax < u) (hlt : u < 2 ^ 64) :
    SeekContract c offset whence ↔ u = 2 ^ 64 - 1 ∧ c.pos.toNat = 2 ^ 64 - 1 := by
  have hpos := c.pos.isLt
  have hsigned := asSigned_of_gt hbig hlt
  unfold SeekContract
  rw [vfileSeek_run, hland]
  constructor
  · intro h
    obtain ⟨r, c', hrun, -, -, hrefused, -⟩ := h
    cases hrun
    obtain ⟨hr, hstay⟩ := hrefused hout
    have hlast : u = 2 ^ 64 - 1 := by omega
    refine ⟨hlast, ?_⟩
    have hnat := congrArg BitVec.toNat hstay
    simp only [BitVec.toNat_ofNat, Nat.mod_eq_of_lt hlt] at hnat
    omega
  · intro h
    obtain ⟨hlast, hend⟩ := h
    have hstay : BitVec.ofNat 64 u = c.pos := by
      apply BitVec.eq_of_toNat_eq
      rw [BitVec.toNat_ofNat, Nat.mod_eq_of_lt hlt]
      omega
    refine ⟨_, _, rfl, rfl, ?_, ?_, ?_⟩
    · intro t ht h0 hle
      exact absurd ⟨h0, hle⟩ (hout t ht)
    · intro _
      refine ⟨?_, hstay⟩
      omega
    · intro _
      exact hstay

/-- A seek on a `from_vec` file keeps its contract for exactly the requests
that fit, whatever the contents and the position. -/
theorem vfileSeek_contract_iff (c : Cursor) (offset : BitVec 64) (whence : BitVec 32) :
    SeekContract c offset whence ↔ SeekFits c offset whence := by
  have hmax := isizeMax_eq
  rw [seekFits_iff]
  rcases c.landing_cases offset whence with ⟨t, ht, h0, hle, hland⟩ | ⟨hout, hhigh⟩
  · -- a representable target is never in the upper half
    rw [hland]
    constructor
    · intro _ u hu hbig
      cases hu
      omega
    · intro _
      exact seekContract_reached ht h0 hle hland
  · cases hland : c.landing offset whence with
    | none =>
        constructor
        · intro _ u hu
          cases hu
        · intro _
          exact seekContract_refused hout hland
    | some u =>
        obtain ⟨hbig, hlt⟩ := hhigh u hland
        rw [seekContract_upper_iff hout hland hbig hlt]
        constructor
        · intro h u' hu' _
          cases hu'
          exact h
        · intro h
          exact h u rfl hbig

/-- On an empty file `seek(-1, SEEK_SET)` answers -1 and leaves the position
at `2^64 - 1`. -/
theorem vfileSeek_negative_start_moves :
    ¬ SeekContract (Cursor.new ⟨[], Nat.zero_le _⟩) (-1) SEEK_SET := by
  rintro ⟨r, c', hrun, -, -, -, hstay⟩
  have hmoved : vfileSeek (-1) SEEK_SET (.cursor (Cursor.new ⟨[], Nat.zero_le _⟩)) =
      .ok (-1, .cursor ⟨⟨[], Nat.zero_le _⟩, BitVec.allOnes 64⟩) := by decide
  rw [hmoved] at hrun
  cases hrun
  exact absurd (hstay (by decide)) (by decide)

end MgbaRs
