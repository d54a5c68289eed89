import Mathlib.Logic.Function.Basic
import MgbaRs.Lib.Cells
import MgbaRs.Rust.Num

/-!
# Raw ranges of memory

`raw_write_range` and `raw_read_range` go through a buffer byte by byte, over
the `rawWrite8` and `rawRead8` of the core, at `address + i as u32`: an address
past `u32::MAX` panics in a checked build, with the bytes before it done, and
starts again at zero in any other.

The GBA mirrors its memories, so two addresses may name one cell.
`raw_round_trips_iff` is the exact condition for a buffer to be read back as
it was written.
-/

namespace MgbaRs

/-- The byte accessors of the core's vtable. -/
structure RawBus (M : Type) where
  rawRead8 : M → Word → Word → Byte
  rawWrite8 : M → Word → Word → Byte → M

section Ranges

variable {M : Type} (bus : RawBus M) (b : Build) (address segment : Word)

/-- The `for` of `raw_write_range`, from the index `i` on. A panic leaves the
bytes written so far. -/
def rawWriteLoop (i : Nat) : List Byte → M → Except Fault Unit × M
  | [], m => (.ok (), m)
  | v :: rest, m =>
      match b.add address (BitVec.ofNat 32 i) with
      | .error fault => (.error fault, m)
      | .ok a => rawWriteLoop (i + 1) rest (bus.rawWrite8 m a segment v)

/-- `Core::raw_write_range`. -/
def rawWriteRange (buf : List Byte) (m : M) : Except Fault Unit × M :=
  rawWriteLoop bus b address segment 0 buf m

/-- The `for` of `raw_read_range`, with what the buffer holds from `i` on. -/
def rawReadLoop (m : M) (i : Nat) : List Byte → Except Fault Unit × List Byte
  | [] => (.ok (), [])
  | old :: rest =>
      match b.add address (BitVec.ofNat 32 i) with
      | .error fault => (.error fault, old :: rest)
      | .ok a =>
          let (result, rest) := rawReadLoop m (i + 1) rest
          (result, bus.rawRead8 m a segment :: rest)

/-- `Core::raw_read_range`: the buffer afterwards. -/
def rawReadRange (m : M) (buf : List Byte) : Except Fault Unit × List Byte :=
  rawReadLoop bus b address segment m 0 buf

end Ranges

/-- Where the byte of index `i` lies. -/
def byteAddress (address : Word) (i : Nat) : Word := address + BitVec.ofNat 32 i

/-- No address of the range trips the overflow check. -/
def InRange (b : Build) (address : Word) (n : Nat) : Prop :=
  b.overflowChecks = true → ∀ i < n, address.toNat + i % 2 ^ 32 < 2 ^ 32

/-- The stores of a buffer, from the index `i` on. -/
def stores (address : Word) (i : Nat) : List Byte → List (Word × Byte)
  | [] => []
  | v :: rest => (byteAddress address i, v) :: stores address (i + 1) rest

theorem mem_stores {address : Word} {i : Nat} {buf : List Byte} {p : Word × Byte} :
    p ∈ stores address i buf ↔
      ∃ (j : Nat) (h : j < buf.length), p = (byteAddress address (i + j), buf[j]) := by
  induction buf generalizing i with
  | nil => simp [stores]
  | cons v rest ih =>
      rw [stores, List.mem_cons, ih]
      constructor
      · rintro (rfl | ⟨j, hj, rfl⟩)
        · exact ⟨0, Nat.zero_lt_succ _, rfl⟩
        · refine ⟨j + 1, Nat.succ_lt_succ hj, ?_⟩
          rw [List.getElem_cons_succ, show i + 1 + j = i + (j + 1) by omega]
      · rintro ⟨j, hj, rfl⟩
        cases j with
        | zero => exact .inl rfl
        | succ j =>
            refine .inr ⟨j, Nat.lt_of_succ_lt_succ hj, ?_⟩
            rw [List.getElem_cons_succ, show i + 1 + j = i + (j + 1) by omega]

theorem mem_stores_zero {address : Word} {buf : List Byte} {p : Word × Byte} :
    p ∈ stores address 0 buf ↔
      ∃ (j : Nat) (h : j < buf.length), p = (byteAddress address j, buf[j]) := by
  rw [mem_stores]
  simp only [Nat.zero_add]

section Runs

variable {M : Type} {bus : RawBus M} {b : Build} {address segment : Word}

theorem byteAddress_ok_iff (i : Nat) :
    b.add address (BitVec.ofNat 32 i) = .ok (byteAddress address i) ↔
      (b.overflowChecks = true → address.toNat + i % 2 ^ 32 < 2 ^ 32) := by
  rw [Build.add_eq_ok_iff, BitVec.toNat_ofNat]
  exact and_iff_left rfl

theorem add_error_of_not {i : Nat}
    (h : ¬ (b.overflowChecks = true → address.toNat + i % 2 ^ 32 < 2 ^ 32)) :
    b.add address (BitVec.ofNat 32 i) = .error .overflow := by
  unfold Build.add
  rw [if_pos]
  rw [BitVec.toNat_ofNat]
  simpa using h

/-- Where every address is in range, a write is its stores. -/
theorem rawWriteLoop_eq {i : Nat} {buf : List Byte} (m : M)
    (h : b.overflowChecks = true → ∀ j < buf.length, address.toNat + (i + j) % 2 ^ 32 < 2 ^ 32) :
    rawWriteLoop bus b address segment i buf m =
      (.ok (), Cells.writeAll (fun m a v => bus.rawWrite8 m a segment v) m
        (stores address i buf)) := by
  induction buf generalizing i m with
  | nil => rfl
  | cons v rest ih =>
      have hadd : b.add address (BitVec.ofNat 32 i) = .ok (byteAddress address i) :=
        (byteAddress_ok_iff i).mpr fun hb => h hb 0 (Nat.zero_lt_succ _)
      rw [rawWriteLoop, hadd]
      refine ih _ ?_
      intro hb j hj
      have := h hb (j + 1) (Nat.succ_lt_succ hj)
      rwa [show i + 1 + j = i + (j + 1) by omega]

/-- An address out of range ends the write with a panic. -/
theorem rawWriteLoop_overflow {i : Nat} {buf : List Byte} (m : M)
    (h : ¬ (b.overflowChecks = true →
      ∀ j < buf.length, address.toNat + (i + j) % 2 ^ 32 < 2 ^ 32)) :
    (rawWriteLoop bus b address segment i buf m).1 = .error .overflow := by
  induction buf generalizing i m with
  | nil =>
      refine absurd ?_ h
      rintro - j hj
      exact absurd hj (Nat.not_lt_zero j)
  | cons v rest ih =>
      rw [rawWriteLoop]
      by_cases hi : b.overflowChecks = true → address.toNat + i % 2 ^ 32 < 2 ^ 32
      · rw [(byteAddress_ok_iff i).mpr hi]
        refine ih _ ?_
        intro hrest
        refine h ?_
        intro hb j hj
        cases j with
        | zero => exact hi hb
        | succ j =>
            have := hrest hb j (Nat.lt_of_succ_lt_succ hj)
            rwa [show i + (j + 1) = i + 1 + j by omega]
      · rw [add_error_of_not hi]

theorem rawReadLoop_eq {i : Nat} {buf : List Byte} (m : M)
    (h : b.overflowChecks = true → ∀ j < buf.length, address.toNat + (i + j) % 2 ^ 32 < 2 ^ 32) :
    rawReadLoop bus b address segment m i buf =
      (.ok (), (stores address i buf).map fun p => bus.rawRead8 m p.1 segment) := by
  induction buf generalizing i with
  | nil => rfl
  | cons v rest ih =>
      have hadd : b.add address (BitVec.ofNat 32 i) = .ok (byteAddress address i) :=
        (byteAddress_ok_iff i).mpr fun hb => h hb 0 (Nat.zero_lt_succ _)
      have hrest := ih (i := i + 1) fun hb j hj => by
        have := h hb (j + 1) (Nat.succ_lt_succ hj)
        rwa [show i + 1 + j = i + (j + 1) by omega]
      rw [rawReadLoop, hadd]
      simp only [hrest]
      rfl

/-- Only the places of a buffer's stores matter, not what it held. -/
theorem map_stores_congr {β : Type} (f : Word → β) {i : Nat} {buf buf' : List Byte}
    (h : buf.length = buf'.length) :
    (stores address i buf).map (fun p => f p.1) = (stores address i buf').map fun p => f p.1 := by
  induction buf generalizing i buf' with
  | nil =>
      cases buf' with
      | nil => rfl
      | cons v rest => cases h
  | cons v rest ih =>
      cases buf' with
      | nil => cases h
      | cons v' rest' =>
          rw [stores, stores, List.map_cons, List.map_cons, ih (Nat.succ.inj h)]

theorem map_stores_eq_iff (f : Word → Byte) {i : Nat} {buf : List Byte} :
    (stores address i buf).map (fun p => f p.1) = buf ↔
      ∀ p ∈ stores address i buf, f p.1 = p.2 := by
  induction buf generalizing i with
  | nil => simp [stores]
  | cons v rest ih =>
      rw [stores, List.map_cons, List.cons.injEq, ih, List.forall_mem_cons]

end Runs

/-- Written to memory, the buffer is read back into one of the same length. -/
def RoundTrips {M : Type} (bus : RawBus M) (b : Build) (address segment : Word) (buf : List Byte)
    (m : M) : Prop :=
  ∃ m', rawWriteRange bus b address segment buf m = (.ok (), m') ∧
    ∀ into : List Byte, into.length = buf.length →
      rawReadRange bus b address segment m' into = (.ok (), buf)

/-- **Raw round trip.** Over memory that is plain where the buffer goes, it is
read back exactly when no address overflows in a checked build and no two
bytes that differ go to one cell. -/
theorem raw_round_trips_iff {M κ : Type} {bus : RawBus M} {cell : Word → κ} {segment : Word}
    {address : Word} {buf : List Byte}
    (plain : Cells.Plain (fun m a => bus.rawRead8 m a segment)
      (fun m a v => bus.rawWrite8 m a segment v) cell
      (fun a => ∃ i < buf.length, a = byteAddress address i)) (b : Build) (m : M) :
    RoundTrips bus b address segment buf m ↔
      InRange b address buf.length ∧
        ∀ (i j : Nat) (hi : i < buf.length) (hj : j < buf.length),
          cell (byteAddress address i) = cell (byteAddress address j) → buf[i] = buf[j] := by
  have hwithin : ∀ p ∈ stores address 0 buf, ∃ i < buf.length, p.1 = byteAddress address i := by
    intro p hp
    obtain ⟨j, hj, rfl⟩ := mem_stores_zero.mp hp
    exact ⟨j, hj, rfl⟩
  have hback := Cells.forall_read_writeAll_iff plain hwithin m
  -- the condition on the cells, store by store
  have hcells : (∀ p ∈ stores address 0 buf, ∀ q ∈ stores address 0 buf,
      cell p.1 = cell q.1 → p.2 = q.2) ↔
      ∀ (i j : Nat) (hi : i < buf.length) (hj : j < buf.length),
        cell (byteAddress address i) = cell (byteAddress address j) → buf[i] = buf[j] := by
    constructor
    · intro h i j hi hj
      exact h _ (mem_stores_zero.mpr ⟨i, hi, rfl⟩) _ (mem_stores_zero.mpr ⟨j, hj, rfl⟩)
    · intro h p hp q hq
      obtain ⟨i, hi, rfl⟩ := mem_stores_zero.mp hp
      obtain ⟨j, hj, rfl⟩ := mem_stores_zero.mp hq
      exact h i j hi hj
  by_cases hrange : InRange b address buf.length
  · have hin : ∀ n : Nat, n = buf.length → b.overflowChecks = true →
        ∀ j < n, address.toNat + (0 + j) % 2 ^ 32 < 2 ^ 32 := by
      rintro n rfl hb j hj
      rw [Nat.zero_add]
      exact hrange hb j hj
    let after : M :=
      Cells.writeAll (fun m a v => bus.rawWrite8 m a segment v) m (stores address 0 buf)
    have hwrite : rawWriteLoop bus b address segment 0 buf m = (.ok (), after) :=
      rawWriteLoop_eq m (hin _ rfl)
    have hread : ∀ (m' : M) (into : List Byte), into.length = buf.length →
        rawReadRange bus b address segment m' into =
          (.ok (), (stores address 0 buf).map fun p => bus.rawRead8 m' p.1 segment) := by
      intro m' into hinto
      rw [rawReadRange, rawReadLoop_eq m' (hin _ hinto),
        map_stores_congr (fun a => bus.rawRead8 m' a segment) hinto]
    have hbytes : (stores address 0 buf).map (fun p => bus.rawRead8 after p.1 segment) = buf ↔
        ∀ p ∈ stores address 0 buf, bus.rawRead8 after p.1 segment = p.2 :=
      map_stores_eq_iff fun a => bus.rawRead8 after a segment
    rw [and_iff_right hrange, ← hcells, ← hback, ← hbytes, RoundTrips, rawWriteRange, hwrite]
    constructor
    · rintro ⟨m', hm, h⟩
      cases hm
      have hbuf := h buf rfl
      rw [hread _ _ rfl] at hbuf
      exact congrArg Prod.snd hbuf
    · intro h
      refine ⟨_, rfl, ?_⟩
      intro into hinto
      rw [hread _ _ hinto, h]
  · refine iff_of_false ?_ fun h => hrange h.1
    rintro ⟨m', hwrite, -⟩
    have hfault : (rawWriteLoop bus b address segment 0 buf m).1 = .error .overflow :=
      rawWriteLoop_overflow m (by simpa only [Nat.zero_add, InRange] using hrange)
    rw [rawWriteRange] at hwrite
    rw [hwrite] at hfault
    cases hfault

/-- 256 KiB that repeat, as the on-board work RAM does. -/
def ewram : RawBus (Nat → Byte) where
  rawRead8 m a _ := m (a.toNat % 0x40000)
  rawWrite8 m a _ v := Function.update m (a.toNat % 0x40000) v

theorem ewram_plain (segment : Word) (range : Word → Prop) :
    Cells.Plain (fun m a => ewram.rawRead8 m a segment)
      (fun m a v => ewram.rawWrite8 m a segment v) (fun a => a.toNat % 0x40000) range where
  hit := by
    intro m a b v _ _ hcell
    show Function.update m (a.toNat % 0x40000) v (b.toNat % 0x40000) = v
    rw [← hcell, Function.update_self]
  miss := by
    intro m a b v _ _ hcell
    exact Function.update_of_ne (Ne.symm hcell) v m
  mirror := by
    intro m a b _ _ hcell
    exact congrArg m hcell

theorem raw_round_trips_ewram :
    RoundTrips ewram .debug 0x02000000 0 [1, 2] (fun _ => 0) := by
  refine (raw_round_trips_iff (ewram_plain 0 _) .debug (fun _ => 0)).mpr ⟨?_, ?_⟩
  · intro _ i hi
    simp only [List.length_cons, List.length_nil] at hi
    show 0x02000000 + i % 2 ^ 32 < 2 ^ 32
    omega
  · intro i j hi hj hcell
    simp only [List.length_cons, List.length_nil] at hi hj
    have hone : (byteAddress 0x02000000 1).toNat % 0x40000 ≠
        (byteAddress 0x02000000 0).toNat % 0x40000 := by decide
    obtain rfl | rfl : i = 0 ∨ i = 1 := by omega
    · obtain rfl | rfl : j = 0 ∨ j = 1 := by omega
      · rfl
      · exact absurd hcell.symm hone
    · obtain rfl | rfl : j = 0 ∨ j = 1 := by omega
      · exact absurd hcell hone
      · rfl

end MgbaRs
