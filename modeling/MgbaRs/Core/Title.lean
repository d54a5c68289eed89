import MgbaRs.Rust.Str

/-!
# The two decoders of the ROM title

A save state and the game info both carry the title as a fixed field of C
characters. `State::rom_title` makes a `CString` of the field, falling back
on what lies before the first NUL, and insists on UTF-8;
`cstring_to_string`, behind `Core::game_title`, cuts at the first NUL and
decodes lossily.

Both look at `untilNul` of the field only. What they make of it differs on
bytes that are no UTF-8, which `rom_title` panics on: `titleContract_iff`
gives the titles on which the two agree.
-/

namespace MgbaRs

/-- The field of `GBASerializedState` that `rom_title` reads. -/
structure State where
  title : List Byte
deriving DecidableEq, Repr

/-- The fields of `mGameInfo` that are read as strings. -/
structure GameInfo where
  title : List Byte
  code : List Byte
deriving DecidableEq, Repr

/-- `State::rom_title`. -/
def State.romTitle (state : State) : Except Fault Str := do
  let cstr ←
    match CString.new state.title with
    | .ok r => .ok r
    | .error err => do
        let front ← sliceTo err.intoVec err.nulPosition
        match CString.new front with
        | .ok r => .ok r
        | .error _ => .error .unwrapErr
  match cstr.toStr with
  | some title => .ok title
  | none => .error .unwrapErr

/-- `cstring_to_string`. -/
def cstringToString (buf : List Byte) : Except Fault Str := do
  let stop := (buf.findIdx? (· == 0)).getD buf.length
  let front ← sliceTo buf stop
  return Str.fromUtf8Lossy front

/-- `Core::game_info`: the vtable slot fills in a zeroed record. -/
def gameInfo (getGameInfo : Option (GameInfo → GameInfo)) (zeroed : GameInfo) :
    Except Fault GameInfo :=
  match getGameInfo with
  | some fill => .ok (fill zeroed)
  | none => .error .unwrapNone

/-- `Core::game_title`. -/
def gameTitle (getGameInfo : Option (GameInfo → GameInfo)) (zeroed : GameInfo) :
    Except Fault Str := do
  let info ← gameInfo getGameInfo zeroed
  cstringToString info.title

/-- `Core::game_code`. -/
def gameCode (getGameInfo : Option (GameInfo → GameInfo)) (zeroed : GameInfo) :
    Except Fault Str := do
  let info ← gameInfo getGameInfo zeroed
  cstringToString info.code

/-! ## What the decoders look at -/

/-- The bytes before the first NUL, all of them where there is none. -/
def untilNul (field : List Byte) : List Byte := field.takeWhile (· ≠ 0)

theorem untilNul_padded (field pad : List Byte) :
    untilNul (field ++ 0 :: pad) = untilNul field := by
  induction field with
  | nil => rfl
  | cons b field ih =>
      by_cases hb : b = 0
      · simp [untilNul, hb]
      · simpa [untilNul, hb] using ih

theorem zero_notMem_untilNul (field : List Byte) : 0 ∉ untilNul field := by
  intro h
  have := List.mem_takeWhile_imp h
  simp at this

theorem untilNul_of_notMem {field : List Byte} (h : 0 ∉ field) : untilNul field = field := by
  rw [untilNul, List.takeWhile_eq_self_iff]
  intro b hb
  exact decide_eq_true fun hzero => h (hzero ▸ hb)

/-- Both decoders cut the field where its first NUL is. -/
theorem sliceTo_findIdx (field : List Byte) :
    sliceTo field (field.findIdx (· == 0)) = .ok (untilNul field) := by
  have hnot : (fun b : Byte => !decide (b ≠ 0)) = (· == 0) := by
    funext b
    by_cases hb : b = 0 <;> simp [hb]
  rw [sliceTo, if_pos List.findIdx_le_length, untilNul, List.takeWhile_eq_take_findIdx_not, hnot]

theorem CString.new_of_notMem {bytes : List Byte} (h : 0 ∉ bytes) :
    CString.new bytes = .ok ⟨bytes, h⟩ := by
  rw [CString.new, dif_neg h]

/-- `cstring_to_string` returns for every field. -/
theorem cstringToString_run (field : List Byte) :
    cstringToString field = .ok (Str.fromUtf8Lossy (untilNul field)) := by
  have hstop : (field.findIdx? (· == 0)).getD field.length = field.findIdx (· == 0) :=
    List.findIdx_eq_getD_findIdx?.symm
  simp only [cstringToString, hstop, sliceTo_findIdx]
  rfl

/-- `rom_title` returns where strict decoding does. -/
theorem State.romTitle_run (field : List Byte) :
    State.romTitle ⟨field⟩ =
      match Str.fromUtf8 (untilNul field) with
      | some title => .ok title
      | none => .error .unwrapErr := by
  by_cases hnul : 0 ∈ field
  · have hfront : sliceTo field (field.idxOf 0) = .ok (untilNul field) :=
      sliceTo_findIdx field
    have hcstr : CString.new field = .error ⟨field.idxOf 0, field⟩ := by
      rw [CString.new, dif_pos hnul]
    simp only [State.romTitle, hcstr, hfront, bind, Except.bind,
      CString.new_of_notMem (zero_notMem_untilNul field), CString.toStr]
  · simp only [State.romTitle, CString.new_of_notMem hnul, bind, Except.bind, CString.toStr,
      untilNul_of_notMem hnul]

/-! ## Agreement -/

/-- Both decoders return the same string, and neither sees what follows a
NUL. -/
structure TitleContract (field : List Byte) : Prop where
  agree : ∃ title, State.romTitle ⟨field⟩ = .ok title ∧ cstringToString field = .ok title
  padding : ∀ pad, State.romTitle ⟨field ++ 0 :: pad⟩ = State.romTitle ⟨field⟩ ∧
    cstringToString (field ++ 0 :: pad) = cstringToString field

theorem romTitle_padded (field pad : List Byte) :
    State.romTitle ⟨field ++ 0 :: pad⟩ = State.romTitle ⟨field⟩ := by
  rw [State.romTitle_run, State.romTitle_run, untilNul_padded]

theorem cstringToString_padded (field pad : List Byte) :
    cstringToString (field ++ 0 :: pad) = cstringToString field := by
  rw [cstringToString_run, cstringToString_run, untilNul_padded]

/-- On the bytes of a text the two decoders read that text. -/
theorem decoders_of_text {field : List Byte} {text : Str}
    (h : untilNul field = Utf8.encode text) :
    State.romTitle ⟨field⟩ = .ok text ∧ cstringToString field = .ok text := by
  have hstrict : Str.fromUtf8 (untilNul field) = some text := Utf8.decode?_eq_some_iff.mpr h
  have hlossy : Str.fromUtf8Lossy (untilNul field) = text := by
    rw [h, Str.fromUtf8Lossy, Utf8.decodeLossy_encode]
  exact ⟨by simp only [State.romTitle_run, hstrict], by rw [cstringToString_run, hlossy]⟩

/-- **The decoders agree exactly on well-formed titles**: those whose bytes
before the first NUL are UTF-8. On any other `rom_title` panics. -/
theorem titleContract_iff (field : List Byte) :
    TitleContract field ↔ ∃ text : Str, untilNul field = Utf8.encode text := by
  constructor
  · rintro ⟨⟨title, hrom, -⟩, -⟩
    rw [State.romTitle_run] at hrom
    cases hstrict : Str.fromUtf8 (untilNul field) with
    | none =>
        simp only [hstrict] at hrom
        cases hrom
    | some text => exact ⟨text, Utf8.decode?_eq_some_iff.mp hstrict⟩
  · rintro ⟨text, htext⟩
    exact ⟨⟨text, decoders_of_text htext⟩,
      fun pad => ⟨romTitle_padded field pad, cstringToString_padded field pad⟩⟩

/-- A title of one stray byte. -/
theorem romTitle_panics_on_stray_byte :
    State.romTitle ⟨[0xFF, 0]⟩ = .error .unwrapErr ∧
      cstringToString [0xFF, 0] = .ok ['\uFFFD'] ∧ ¬ TitleContract [0xFF, 0] := by
  have hstrict : Str.fromUtf8 (untilNul [0xFF, 0]) = none :=
    Utf8.decode?_eq_none_of_first? (by decide)
  have hpanic : State.romTitle ⟨[0xFF, 0]⟩ = .error .unwrapErr := by
    simp only [State.romTitle_run, hstrict]
  refine ⟨hpanic, by decide, fun hcontract => ?_⟩
  obtain ⟨title, hrom, -⟩ := hcontract.agree
  rw [hpanic] at hrom
  cases hrom

/-- With its vtable slot filled in, a core gives a title and a code whatever
bytes it puts there. -/
theorem gameInfo_strings (fill : GameInfo → GameInfo) (zeroed : GameInfo) :
    gameTitle (some fill) zeroed =
        .ok (Str.fromUtf8Lossy (untilNul (fill zeroed).title)) ∧
      gameCode (some fill) zeroed =
        .ok (Str.fromUtf8Lossy (untilNul (fill zeroed).code)) :=
  ⟨cstringToString_run _, cstringToString_run _⟩

/-- The game info of a core whose field is the state's, a NUL and padding
gives the state's title, where that is well formed. -/
theorem gameTitle_eq_romTitle {fill : GameInfo → GameInfo} {zeroed : GameInfo}
    {field pad : List Byte} {text : Str} (hfill : (fill zeroed).title = field ++ 0 :: pad)
    (htext : untilNul field = Utf8.encode text) :
    gameTitle (some fill) zeroed = State.romTitle ⟨field⟩ := by
  show cstringToString (fill zeroed).title = State.romTitle ⟨field⟩
  rw [hfill, cstringToString_padded, (decoders_of_text htext).1, (decoders_of_text htext).2]

end MgbaRs
