import MgbaRs.Rust.Str

/-!
# mGBA's log lines in the `log` facade

`c_log` is the callback of the crate's logger: it maps mGBA's levels to the
facade's, asks the facade whether it wants the line at all, formats it with
`vsnprintf` into a buffer of 4096 bytes and decodes what is there. A line that
does not fit is cut by bytes; `cLog_line` says what is left of a text: its
whole characters, and one U+FFFD where a character was cut.
-/

namespace MgbaRs

/-- `log::Level`. -/
inductive Level where
  | error
  | warn
  | info
  | debug
  | trace
deriving DecidableEq, Repr

/-- `mLogLevel`; a callback can be handed any number. -/
inductive MLogLevel where
  | stub
  | debug
  | gameError
  | info
  | warn
  | error
  | fatal
  | other (bits : Word)
deriving DecidableEq

structure LogRecord where
  level : Level
  text : Str
deriving DecidableEq

/-- What `c_log` asks of the facade and of mGBA. -/
structure LogEnv where
  /-- `log_enabled!`. -/
  enabled : Level → Bool
  /-- `mLogCategoryName`, up to the NUL, of a category mGBA knows: it has no
  name for another one. -/
  categoryName : Int → List Byte

/-- `vsnprintf` into a buffer of `n > 0` bytes, given all it would write, or
nothing when the format cannot be carried out: the answer, and the bytes
stored. A length that is no `int` is an error too. -/
def vsnprintf (n : Nat) (formatted : Option (List Byte)) : Int × List Byte :=
  match formatted with
  | none => (-1, [])
  | some text =>
      if text.length < 2 ^ 31 then (text.length, text.take (n - 1) ++ [0])
      else (-1, text.take (n - 1) ++ [0])

def BUF_LEN : Nat := 4096

def VSNPRINTF_FAILED : Str := "<vsnprintf failed>".toList

/-- The first `match`. -/
def MLogLevel.level : MLogLevel → Level
  | .stub => .trace
  | .debug | .gameError => .debug
  | .info => .info
  | .warn => .warn
  | .error | .fatal => .error
  | .other _ => .info

/-- `msg`, from the answer of `vsnprintf` and the buffer. -/
def logMessage (n : Int) (buf : List Byte) : Except Fault Str :=
  if n < 0 then .ok VSNPRINTF_FAILED
  else (sliceTo buf (min n.toNat (buf.length - 1))).map Str.fromUtf8Lossy

/-- `c_log`, given all the format would write. -/
def cLog (env : LogEnv) (category : Int) (level : MLogLevel) (formatted : Option (List Byte)) :
    Except Fault (Option LogRecord) := do
  if env.enabled level.level = false then return none
  let (n, stored) := vsnprintf BUF_LEN formatted
  -- the rest of the buffer is still zero
  let buf := stored ++ List.replicate (BUF_LEN - stored.length) 0
  let msg ← logMessage n buf
  return some ⟨level.level,
    Str.fromUtf8Lossy (env.categoryName category) ++ ": ".toList ++ msg⟩

/-- What `vsnprintf` stores fits the buffer. -/
theorem vsnprintf_stored_le {n : Nat} (hn : 0 < n) (formatted : Option (List Byte)) :
    (vsnprintf n formatted).2.length ≤ n := by
  have htext : ∀ text : List Byte, (text.take (n - 1) ++ [0]).length ≤ n := by
    intro text
    rw [List.length_append, List.length_take, List.length_singleton]
    omega
  cases formatted with
  | none => exact Nat.zero_le n
  | some text =>
      unfold vsnprintf
      simp only
      split
      · exact htext text
      · exact htext text

/-- What the message comes to: the front of the formatted text. -/
def lineText : Option (List Byte) → Str
  | none => VSNPRINTF_FAILED
  | some text =>
      if text.length < 2 ^ 31 then Str.fromUtf8Lossy (text.take (BUF_LEN - 1))
      else VSNPRINTF_FAILED

theorem logMessage_vsnprintf (formatted : Option (List Byte)) :
    logMessage (vsnprintf BUF_LEN formatted).1
      ((vsnprintf BUF_LEN formatted).2 ++
        List.replicate (BUF_LEN - (vsnprintf BUF_LEN formatted).2.length) 0) =
      .ok (lineText formatted) := by
  cases formatted with
  | none => rfl
  | some text =>
      unfold vsnprintf lineText
      simp only
      by_cases hlen : text.length < 2 ^ 31
      · rw [if_pos hlen, if_pos hlen]
        -- the front of the buffer is the front of the text
        have hfront : (text.take (BUF_LEN - 1) ++ [(0 : Byte)] ++
            List.replicate (BUF_LEN - (text.take (BUF_LEN - 1) ++ [(0 : Byte)]).length) 0).take
            (min text.length (BUF_LEN - 1)) = text.take (BUF_LEN - 1) := by
          rw [List.append_assoc, List.take_append_of_le_length (by rw [List.length_take]; omega),
            List.take_take,
            show min (min text.length (BUF_LEN - 1)) (BUF_LEN - 1) =
              min (BUF_LEN - 1) text.length by omega,
            ← List.take_eq_take_min]
        have hbuf : (text.take (BUF_LEN - 1) ++ [(0 : Byte)] ++
            List.replicate (BUF_LEN - (text.take (BUF_LEN - 1) ++ [(0 : Byte)]).length) 0).length =
            BUF_LEN := by
          have hstored := vsnprintf_stored_le (n := BUF_LEN) (by decide) (some text)
          unfold vsnprintf at hstored
          simp only [if_pos hlen] at hstored
          rw [List.length_append, List.length_replicate]
          omega
        have hrange : min text.length (BUF_LEN - 1) ≤ BUF_LEN := by omega
        simp only [logMessage, Int.toNat_natCast, hbuf, sliceTo, if_pos hrange, hfront]
        rw [if_neg (by omega)]
        rfl
      · rw [if_neg hlen, if_neg hlen]
        rfl

/-- A call logs one record or, when the facade does not want it, none. It
never panics. -/
theorem cLog_run (env : LogEnv) (category : Int) (level : MLogLevel)
    (formatted : Option (List Byte)) :
    cLog env category level formatted = .ok
      (if env.enabled level.level = true then
        some ⟨level.level, Str.fromUtf8Lossy (env.categoryName category) ++ ": ".toList ++
          lineText formatted⟩
      else none) := by
  have hmsg := logMessage_vsnprintf formatted
  unfold cLog
  cases hon : env.enabled level.level with
  | false => rfl
  | true =>
      simp only [hmsg]
      rfl

/-- **A log line** of mGBA, when the facade wants its level: the category, and
of the text the characters whose bytes lie within the first 4095, with one
U+FFFD behind them if the next one was cut. -/
theorem cLog_line (env : LogEnv) (category : Int) (level : MLogLevel) (text : Str)
    (hon : env.enabled level.level = true) (hlen : (Utf8.encode text).length < 2 ^ 31) :
    ∃ whole rest, text = whole ++ rest ∧ (Utf8.encode whole).length ≤ 4095 ∧
      (∀ c, rest.head? = some c → 4095 < (Utf8.encode whole).length + c.utf8Size) ∧
      cLog env category level (some (Utf8.encode text)) = .ok (some ⟨level.level,
        Str.fromUtf8Lossy (env.categoryName category) ++ ": ".toList ++
          (whole ++ if rest = [] ∨ (Utf8.encode whole).length = 4095 then []
            else ['\uFFFD'])⟩) := by
  obtain ⟨whole, rest, htext, hle, hnext, hdecode⟩ := Utf8.decodeLossy_take 4095 text
  refine ⟨whole, rest, htext, hle, hnext, ?_⟩
  have hline : lineText (some (Utf8.encode text)) =
      whole ++ if rest = [] ∨ (Utf8.encode whole).length = 4095 then [] else ['\uFFFD'] := by
    rw [← hdecode]
    exact if_pos hlen
  rw [cLog_run, if_pos hon, hline]

theorem length_encode_accents (n : Nat) :
    (Utf8.encode (List.replicate n 'é')).length = 2 * n := by
  induction n with
  | zero => rfl
  | succ n ih =>
      have hone : (String.utf8EncodeChar 'é').length = 2 := by decide
      rw [List.replicate_succ, Utf8.encode_cons, List.length_append, ih, hone]
      omega

/-- A game error of 2048 characters of two bytes: the last one is cut. -/
theorem cLog_line_sample :
    cLog ⟨fun _ => true, fun _ => [0x47]⟩ 0 .gameError
        (some (Utf8.encode (List.replicate 2048 'é'))) =
      .ok (some ⟨.debug, "G: ".toList ++ (List.replicate 2047 'é' ++ ['\uFFFD'])⟩) := by
  have hlen := length_encode_accents 2048
  obtain ⟨whole, rest, htext, hle, hnext, hline⟩ :=
    cLog_line ⟨fun _ => true, fun _ => [0x47]⟩ 0 .gameError (List.replicate 2048 'é') rfl (by omega)
  obtain ⟨hcount, hwhole, hrest⟩ := List.append_eq_replicate_iff.mp htext.symm
  have hbytes : (Utf8.encode whole).length = 2 * whole.length := by
    rw [hwhole, length_encode_accents, List.length_replicate]
  -- the text does not fit, so some character comes next
  have hmore : 0 < rest.length := by omega
  have hcut : 4095 < (Utf8.encode whole).length + 2 := by
    refine hnext 'é' ?_
    rw [hrest, List.head?_replicate, if_neg hmore.ne']
  have hkept : whole.length = 2047 := by omega
  have hcut' : ¬ (rest = [] ∨ (Utf8.encode whole).length = 4095) := by
    rintro (rfl | hfull)
    · exact absurd hmore (by decide)
    · omega
  rw [hline, if_neg hcut', hwhole, hkept]
  rfl

/-! ## The default logger -/

/-- `INSTALLED`, the loggers leaked so far and the one mGBA uses. -/
structure Loggers where
  installed : Option Nat
  leaked : List Nat
  current : Option Nat
deriving DecidableEq

/-- `install_default_logger`; `fresh` is where a new logger would be
allocated. -/
def installDefaultLogger (fresh : Nat) (s : Loggers) : Loggers :=
  match s.installed with
  | some logger => { s with current := some logger }
  | none => ⟨some fresh, fresh :: s.leaked, some fresh⟩

/-- However often it is called, one logger is leaked and mGBA uses that one. -/
theorem installDefaultLogger_once (first : Nat) (later : List Nat) :
    (first :: later).foldl (fun s fresh => installDefaultLogger fresh s) ⟨none, [], none⟩ =
      ⟨some first, [first], some first⟩ := by
  induction later with
  | nil => rfl
  | cons fresh later ih => exact ih

end MgbaRs
