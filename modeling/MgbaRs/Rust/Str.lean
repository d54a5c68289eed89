import MgbaRs.Lib.Fields
import MgbaRs.Lib.Offset
import MgbaRs.Lib.Utf8
import MgbaRs.Rust.Num

/-!
# Strings

`str` and `String` are the sequence of their scalar values (`Str`); every
position the code computes counts UTF-8 bytes, and slicing panics at one that
is past the end or inside a character. `CString` is a byte string without a
NUL. `lines` is `BufRead::lines` over a whole file, and `TextFile` the files
it gives lines of (`textFile_iff`).
-/

namespace MgbaRs

/-- `str` and `String`. -/
abbrev Str := List Char

/-- `char::is_whitespace`, the Unicode property `White_Space`. -/
def isWhitespace (c : Char) : Bool :=
  (0x09 ≤ c.toNat && c.toNat ≤ 0x0D) || c.toNat == 0x20 || c.toNat == 0x85 ||
    c.toNat == 0xA0 || c.toNat == 0x1680 || (0x2000 ≤ c.toNat && c.toNat ≤ 0x200A) ||
    c.toNat == 0x2028 || c.toNat == 0x2029 || c.toNat == 0x202F || c.toNat == 0x205F ||
    c.toNat == 0x3000

namespace Str

/-- `str::len`, in bytes. -/
def len (s : Str) : Nat := Offset.extent Char.utf8Size s

@[simp] theorem len_append (s t : Str) : len (s ++ t) = len s + len t :=
  Offset.extent_append _ s t

/-- The panic of a slice whose bounds are not character boundaries in range. -/
def badIndex : Fault := .panic "byte index out of bounds or not a char boundary"

/-- `s[i..]`. -/
def sliceFrom (s : Str) (i : Nat) : Except Fault Str :=
  match Offset.splitAt? Char.utf8Size i s with
  | some (_, rest) => .ok rest
  | none => .error badIndex

/-- `s[i..j]`. -/
def slice (s : Str) (i j : Nat) : Except Fault Str :=
  if i ≤ j then
    match Offset.splitAt? Char.utf8Size i s with
    | some (_, rest) =>
        match Offset.splitAt? Char.utf8Size (j - i) rest with
        | some (mid, _) => .ok mid
        | none => .error badIndex
    | none => .error badIndex
  else .error badIndex

theorem sliceFrom_append (s t : Str) : sliceFrom (s ++ t) (len s) = .ok t := by
  simp only [sliceFrom, len, Offset.splitAt?_append Char.utf8Size_pos s t]

/-- A slice that succeeds starts where some front part of the string ends. -/
theorem eq_of_sliceFrom {s t : Str} {i : Nat} (h : sliceFrom s i = .ok t) :
    ∃ pre, s = pre ++ t ∧ i = len pre := by
  rw [sliceFrom] at h
  split at h
  · rename_i pre rest hsplit
    cases h
    obtain ⟨hs, hlen⟩ := Offset.eq_of_splitAt? _ hsplit
    exact ⟨pre, hs, hlen.symm⟩
  · cases h

theorem slice_append (s m t : Str) :
    slice (s ++ (m ++ t)) (len s) (len s + len m) = .ok m := by
  simp only [slice, len, if_pos (Nat.le_add_right _ _), Nat.add_sub_cancel_left,
    Offset.splitAt?_append Char.utf8Size_pos]

/-- `str::find` of a string pattern. -/
def find (s pat : Str) : Option Nat := Offset.find? Char.utf8Size pat s

/-- `str::strip_prefix`. -/
def stripPrefix (s pre : Str) : Option Str := pre.isPrefixOf? s

theorem stripPrefix_append (pre s : Str) : stripPrefix (pre ++ s) pre = some s :=
  List.isPrefixOf?_eq_some_iff_append_eq.mpr rfl

theorem stripPrefix_eq_none {s pre : Str} (h : ¬ pre <+: s) : stripPrefix s pre = none := by
  cases hstrip : stripPrefix s pre with
  | none => rfl
  | some rest => exact absurd ⟨rest, List.isPrefixOf?_eq_some_iff_append_eq.mp hstrip⟩ h

/-- `str::trim`. -/
def trim (s : Str) : Str := Fields.strip isWhitespace s

def Blank (s : Str) : Prop := ∀ c ∈ s, isWhitespace c = true

instance : DecidablePred Blank :=
  fun s => List.decidableBAll (fun c => isWhitespace c = true) s

/-- A property of a closed text, checked at each character it has. -/
theorem forall_mem_of_all {P : Char → Prop} [DecidablePred P] {s : Str}
    (h : s.all (decide <| P ·) = true) : ∀ c ∈ s, P c :=
  fun c hc => of_decide_eq_true (List.all_eq_true.mp h c hc)

/-! ## Bytes to strings -/

/-- `str::from_utf8`, as far as it succeeds. -/
def fromUtf8 (bytes : List Byte) : Option Str := Utf8.decode? bytes

/-- `String::from_utf8_lossy`. -/
def fromUtf8Lossy (bytes : List Byte) : Str := Utf8.decodeLossy bytes

end Str

/-- `&bytes[..n]` on a byte slice. -/
def sliceTo (bytes : List Byte) (n : Nat) : Except Fault (List Byte) :=
  if n ≤ bytes.length then .ok (bytes.take n)
  else .error (.panic "range end index out of range")

structure CString where
  bytes : List Byte
  noNul : 0 ∉ bytes
deriving DecidableEq

/-- `std::ffi::NulError`: where the first NUL is, and the bytes given. -/
structure NulError where
  nulPosition : Nat
  intoVec : List Byte
deriving DecidableEq, Repr

/-- `CString::new`. -/
def CString.new (bytes : List Byte) : Except NulError CString :=
  if h : 0 ∈ bytes then .error ⟨bytes.idxOf 0, bytes⟩ else .ok ⟨bytes, h⟩

/-- `CStr::to_str`. -/
def CString.toStr (s : CString) : Option Str := Str.fromUtf8 s.bytes

/-! ## `BufRead::lines` -/

/-- The line feed, and the carriage return a line also loses before one. -/
def LF : Byte := 0x0A
def CR : Byte := 0x0D

def stripCr (line : List Byte) : List Byte :=
  if line.getLast? = some CR then line.dropLast else line

/-- The lines as bytes. Text after the last line feed is a line of its own
and keeps its carriage return. -/
def rawLines (bytes : List Byte) : List (List Byte) :=
  let segments := bytes.splitOn LF
  segments.dropLast.map stripCr ++ (segments.getLast?.filter (· ≠ [])).toList

/-- A line that is not UTF-8 is an error where it is read. -/
def lines (bytes : List Byte) : List (Option Str) := (rawLines bytes).map Str.fromUtf8

theorem rawLines_unended {bytes : List Byte} (h : LF ∉ bytes) (hne : bytes ≠ []) :
    rawLines bytes = [bytes] := by
  simp [rawLines, List.splitOn_eq_singleton h, Option.filter_some, hne]

theorem rawLines_ended {line : List Byte} (h : LF ∉ line) (rest : List Byte) :
    rawLines (line ++ LF :: rest) = stripCr line :: rawLines rest := by
  have hne := List.splitOn_ne_nil LF rest
  simp only [rawLines, List.splitOn_append_cons_self_of_not_mem h, List.dropLast_cons_of_ne_nil hne,
    List.map_cons, List.cons_append, List.getLast?_cons_of_ne_nil hne]

/-- The bytes of a text file with these lines. A line ends in LF or CR LF; the
last one may also end with the file. -/
inductive TextFile : List Str → List Byte → Prop
  | nil : TextFile [] []
  | unended {line : Str} : line ≠ [] → '\n' ∉ line → TextFile [line] (Utf8.encode line)
  | lf {line : Str} {ls : List Str} {rest : List Byte} :
      '\n' ∉ line → line.getLast? ≠ some '\r' → TextFile ls rest →
      TextFile (line :: ls) (Utf8.encode line ++ 0x0A :: rest)
  | crlf {line : Str} {ls : List Str} {rest : List Byte} :
      '\n' ∉ line → TextFile ls rest →
      TextFile (line :: ls) (Utf8.encode line ++ 0x0D :: 0x0A :: rest)

theorem LF_mem_encode {line : Str} : LF ∈ Utf8.encode line ↔ '\n' ∈ line :=
  Utf8.mem_encode_iff (d := '\n') (by decide)

theorem encode_ends_CR {line : Str} :
    (Utf8.encode line).getLast? = some CR ↔ line.getLast? = some '\r' :=
  Utf8.getLast?_encode_iff (d := '\r') (by decide)

theorem fromUtf8_encode (line : Str) : Str.fromUtf8 (Utf8.encode line) = some line :=
  Utf8.decode?_encode line

theorem TextFile.lines {ls : List Str} {file : List Byte} (h : TextFile ls file) :
    lines file = ls.map some := by
  induction h with
  | nil => rfl
  | @unended line hne hline =>
      have hbytes : Utf8.encode line ≠ [] := by
        intro hnil
        have hdecode := fromUtf8_encode line
        rw [hnil] at hdecode
        exact hne (Option.some.inj hdecode).symm
      rw [MgbaRs.lines, rawLines_unended (mt LF_mem_encode.mp hline) hbytes, List.map_singleton,
        fromUtf8_encode]
      rfl
  | @lf line ls rest hline hcr _ ih =>
      have hlf := rawLines_ended (mt LF_mem_encode.mp hline) rest
      rw [stripCr, if_neg (mt encode_ends_CR.mp hcr)] at hlf
      rw [MgbaRs.lines] at ih ⊢
      rw [show (0x0A : Byte) = LF from rfl, hlf, List.map_cons, fromUtf8_encode, ih]
      rfl
  | @crlf line ls rest hline _ ih =>
      have hmem : LF ∉ Utf8.encode line ++ [CR] := by
        rw [List.mem_append, LF_mem_encode]
        rintro (h | h)
        · exact hline h
        · exact absurd h (by decide)
      have hlf := rawLines_ended hmem rest
      rw [stripCr, if_pos (List.getLast?_concat), List.dropLast_concat, List.append_assoc] at hlf
      rw [MgbaRs.lines] at ih ⊢
      rw [show (0x0D : Byte) :: 0x0A :: rest = [CR] ++ LF :: rest from rfl, hlf, List.map_cons,
        fromUtf8_encode, ih]
      rfl

/-- Every file whose lines are all UTF-8 is a text file of them. -/
theorem TextFile.of_lines {file : List Byte} {ls : List Str} (h : MgbaRs.lines file = ls.map some) :
    TextFile ls file := by
  induction hn : file.length using Nat.strongRecOn generalizing file ls with
  | ind n ih =>
      by_cases hmem : LF ∈ file
      · obtain ⟨seg, rest, rfl, hseg⟩ := List.eq_append_cons_of_mem hmem
        rw [MgbaRs.lines, rawLines_ended hseg, List.map_cons] at h
        cases ls with
        | nil => cases h
        | cons line ls =>
            rw [List.map_cons, List.cons.injEq] at h
            obtain ⟨hline, hrest⟩ := h
            have hline := Utf8.decode?_eq_some_iff.mp hline
            have htail : TextFile ls rest := by
              refine ih rest.length ?_ hrest rfl
              rw [← hn, List.length_append, List.length_cons]
              omega
            by_cases hcr : seg.getLast? = some CR
            · obtain ⟨body, rfl⟩ := List.getLast?_eq_some_iff.mp hcr
              rw [stripCr, if_pos hcr, List.dropLast_concat] at hline
              subst hline
              rw [List.append_assoc]
              refine .crlf (fun h => hseg ?_) htail
              exact List.mem_append_left _ (LF_mem_encode.mpr h)
            · rw [stripCr, if_neg hcr] at hline
              subst hline
              exact .lf (mt LF_mem_encode.mpr hseg) (mt encode_ends_CR.mpr hcr) htail
      · by_cases hnil : file = []
        · subst hnil
          cases ls with
          | nil => exact .nil
          | cons line ls => cases h
        · rw [MgbaRs.lines, rawLines_unended hmem hnil] at h
          obtain ⟨line, rfl, hline⟩ := List.map_eq_singleton_iff.mp h.symm
          have hline := Utf8.decode?_eq_some_iff.mp hline.symm
          subst hline
          refine .unended ?_ (mt LF_mem_encode.mpr hmem)
          rintro rfl
          exact hnil rfl

/-- `BufRead::lines` gives the lines of a text file, and only then none that
fails. -/
theorem textFile_iff {ls : List Str} {file : List Byte} :
    TextFile ls file ↔ lines file = ls.map some :=
  ⟨TextFile.lines, TextFile.of_lines⟩

end MgbaRs
