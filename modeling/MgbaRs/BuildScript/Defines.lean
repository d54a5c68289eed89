import MgbaRs.BuildScript.Vcxproj

/-!
# One set of defines from either generator

`extract_c_defines` reads the `-D` flags cmake fed the C compile, from
`flags.make` (one `C_DEFINES = ` line, split as a shell would) or from
`mgba.vcxproj` (the first element with an entry of its own). The flags go to
bindgen and to the C files compiled beside cmake's, so the two layouts must
give the same ones: `FlagsMakeLayout` and `VcxprojLayout` say how each writes
down a list of defines, and `layouts_yield_same_defines` that both readers
recover it. What comes of any other build directory, a broken one too, says
`extractCDefines_eq_some_iff`.

`shell_words::split` is a parameter; of it only `SplitsUnquoted` is used.
-/

namespace MgbaRs

def C_DEFINES : Str := "C_DEFINES = ".toList

/-- The `for` over the lines. A later define line replaces the flags of an
earlier one, and any line that fails ends the function. -/
def flagsMakeLoop (split : Str → Option (List Str)) (flags : Option (List Str)) :
    List (Option Str) → Option (List Str)
  | [] => flags
  | none :: _ => none
  | some line :: rest =>
      match line.stripPrefix C_DEFINES with
      | some defines =>
          match split defines with
          | some words => flagsMakeLoop split (some words) rest
          | none => none
      | none => flagsMakeLoop split flags rest

/-- `extract_from_flags_make`. -/
def extractFromFlagsMake (os : Os) (split : Str → Option (List Str)) (path : Path) :
    Option (List Str) :=
  match os.readFile path with
  | none => none
  | some file => flagsMakeLoop split none (lines file)

def flagsMakePath (buildDir : Path) : Path :=
  ((buildDir.join "CMakeFiles".toList).join "mgba.dir".toList).join "flags.make".toList

def vcxprojPath (buildDir : Path) : Path := buildDir.join "mgba.vcxproj".toList

/-- `extract_c_defines`. -/
def extractCDefines (os : Os) (split : Str → Option (List Str)) (buildDir : Path) :
    Except Fault (Option (List Str)) :=
  if os.pathExists (flagsMakePath buildDir) = true then
    .ok (extractFromFlagsMake os split (flagsMakePath buildDir))
  else if os.pathExists (vcxprojPath buildDir) = true then
    extractFromVcxproj os (vcxprojPath buildDir)
  else .ok none

/-! ## Splitting words -/

def isShellSpace (c : Char) : Bool := c == ' ' || c == '\t' || c == '\n'

/-- The words of text without quoting. -/
def shellWords (text : Str) : List Str := Fields.stretches isShellSpace text

/-- Text in which a shell finds no quotes, escapes or comments. -/
structure Unquoted (text : Str) : Prop where
  quotes : ∀ c ∈ text, c ≠ '\'' ∧ c ≠ '"' ∧ c ≠ '\\'
  comments : ∀ word ∈ shellWords text, word.head? ≠ some '#'

/-- What is assumed of `shell_words::split`. -/
def SplitsUnquoted (split : Str → Option (List Str)) : Prop :=
  ∀ text, Unquoted text → split text = some (shellWords text)

theorem isShellSpace_of_not_isWhitespace {c : Char} (h : isWhitespace c = false) :
    isShellSpace c = false := by
  by_contra hspace
  rw [Bool.not_eq_false, isShellSpace, Bool.or_eq_true, Bool.or_eq_true, beq_iff_eq, beq_iff_eq,
    beq_iff_eq] at hspace
  rcases hspace with (rfl | rfl) | rfl
  · exact absurd h (by decide)
  · exact absurd h (by decide)
  · exact absurd h (by decide)

/-! ## The two layouts -/

/-- A define that neither layout has to escape. -/
structure Define (d : Str) : Prop where
  nonempty : d ≠ []
  noBlank : ∀ c ∈ d, isWhitespace c = false
  noMarkup : ∀ c ∈ d, c ≠ ';' ∧ c ≠ '<' ∧ c ≠ '&' ∧ c ≠ '>'
  noQuote : ∀ c ∈ d, c ≠ '\'' ∧ c ≠ '"' ∧ c ≠ '\\'
  noMacro : ¬ MACRO <+: d

def definesLine (ds : List Str) : Str := C_DEFINES ++ [' '].intercalate (ds.map dashD)

/-- A UTF-8 file with exactly one define line among its lines: that of `ds`. -/
def FlagsMakeLayout (ds : List Str) (file : List Byte) : Prop :=
  ∃ pre post, TextFile (pre ++ definesLine ds :: post) file ∧
    ∀ line ∈ pre ++ post, ¬ C_DEFINES <+: line

/-- The entries of an element that carry `ds`: the defines in order with
blanks around them, and any blank entries and references in between. -/
inductive Entries : List Str → List Str → Prop
  | nil : Entries [] []
  | blank {ds es : List Str} {entry : Str} :
      Str.Blank entry → Entries ds es → Entries ds (entry :: es)
  | reference {ds es : List Str} {lead name : Str} :
      Str.Blank lead → ';' ∉ name → '<' ∉ name → Entries ds es →
      Entries ds ((lead ++ MACRO ++ name) :: es)
  | define {d : Str} {ds es : List Str} {lead trail : Str} :
      Str.Blank lead → Str.Blank trail → Entries ds es →
      Entries (d :: ds) ((lead ++ d ++ trail) :: es)

/-- An element of these entries behind a text without an open tag. -/
def element (gap : Str) (es : List Str) : Str := gap ++ OPEN ++ [';'].intercalate es ++ CLOSE

/-- Any number of elements without a define, then the element of `ds`, then
anything. -/
inductive VcxprojLayout (ds : List Str) : Str → Prop
  | first {gap : Str} {es : List Str} (post : Str) :
      ¬ OPEN <:+: gap → es ≠ [] → Entries ds es →
      VcxprojLayout ds (element gap es ++ post)
  | hollow {gap text : Str} {es : List Str} :
      ¬ OPEN <:+: gap → es ≠ [] → Entries [] es → VcxprojLayout ds text →
      VcxprojLayout ds (element gap es ++ text)

/-! ## Reading `flags.make` -/

section FlagsMake

variable (split : Str → Option (List Str))

/-- Lines that are no define line are passed over. -/
theorem flagsMakeLoop_skip {pre : List Str} (hpre : ∀ line ∈ pre, ¬ C_DEFINES <+: line)
    (flags : Option (List Str)) (rest : List (Option Str)) :
    flagsMakeLoop split flags (pre.map some ++ rest) = flagsMakeLoop split flags rest := by
  induction pre with
  | nil => rfl
  | cons line pre ih =>
      obtain ⟨hline, hrest⟩ := List.forall_mem_cons.mp hpre
      rw [List.map_cons, List.cons_append, flagsMakeLoop, Str.stripPrefix_eq_none hline]
      exact ih hrest

variable {split}

theorem flagsMakeLoop_line {defines : Str} {words : List Str} (hsplit : split defines = some words)
    (flags : Option (List Str)) (rest : List (Option Str)) :
    flagsMakeLoop split flags (some (C_DEFINES ++ defines) :: rest) =
      flagsMakeLoop split (some words) rest := by
  simp only [flagsMakeLoop, Str.stripPrefix_append, hsplit]

theorem forall_mem_dashD {P : Char → Prop} {d : Str} (hdash : P '-' ∧ P 'D')
    (hd : ∀ c ∈ d, P c) : ∀ c ∈ dashD d, P c :=
  List.forall_mem_cons.mpr ⟨hdash.1, List.forall_mem_cons.mpr ⟨hdash.2, hd⟩⟩

/-- The define line of defines that need no quoting splits into their flags. -/
theorem split_definesLine (hsplit : SplitsUnquoted split) {ds : List Str} (hne : ds ≠ [])
    (hds : ∀ d ∈ ds, Define d) :
    split ([' '].intercalate (ds.map dashD)) = some (ds.map dashD) := by
  have hwords : shellWords ([' '].intercalate (ds.map dashD)) = ds.map dashD := by
    refine Fields.stretches_intercalate rfl (by simpa using hne) ?_ ?_
    · rw [List.forall_mem_map]
      intro d _
      exact List.cons_ne_nil '-' ('D' :: d)
    · rw [List.forall_mem_map]
      intro d hd
      refine forall_mem_dashD (by decide) fun c hc => ?_
      exact isShellSpace_of_not_isWhitespace ((hds d hd).noBlank c hc)
  have hquotes : ∀ c ∈ [' '].intercalate (ds.map dashD), c ≠ '\'' ∧ c ≠ '"' ∧ c ≠ '\\' := by
    refine Fields.forall_mem_intercalate (by decide) ?_
    rw [List.forall_mem_map]
    intro d hd
    exact forall_mem_dashD (by decide) (hds d hd).noQuote
  have hcomments : ∀ word ∈ ds.map dashD, word.head? ≠ some '#' := by
    rw [List.forall_mem_map]
    intro d _
    show some '-' ≠ some '#'
    decide
  rw [hsplit _ ⟨hquotes, by rw [hwords]; exact hcomments⟩, hwords]

theorem extractFromFlagsMake_layout (hsplit : SplitsUnquoted split) {os : Os} {path : Path}
    {file : List Byte} {ds : List Str} (hne : ds ≠ []) (hds : ∀ d ∈ ds, Define d)
    (hfile : os.readFile path = some file) (hlayout : FlagsMakeLayout ds file) :
    extractFromFlagsMake os split path = some (ds.map dashD) := by
  obtain ⟨pre, post, htext, hothers⟩ := hlayout
  have hlines := htext.lines
  obtain ⟨hpre, hpost⟩ := List.forall_mem_append.mp hothers
  have hpost' := flagsMakeLoop_skip split hpost (some (ds.map dashD)) []
  rw [List.append_nil] at hpost'
  simp only [extractFromFlagsMake, hfile, hlines]
  rw [List.map_append, List.map_cons, flagsMakeLoop_skip split hpre, definesLine,
    flagsMakeLoop_line (split_definesLine hsplit hne hds), hpost']
  rfl

/-! ### Every `flags.make` -/

/-- A UTF-8 line that is no define line. -/
def PlainLine (line : Option Str) : Prop :=
  ∃ text, line = some text ∧ ¬ C_DEFINES <+: text

/-- A line the reader gets past: UTF-8 that splits, if it is a define line. -/
def ReadableLine (split : Str → Option (List Str)) (line : Option Str) : Prop :=
  ∃ text, line = some text ∧
    ∀ defines, text = C_DEFINES ++ defines → (split defines).isSome = true

/-- The last define line decides, and every line before it must be readable. -/
def DecidedBy (split : Str → Option (List Str)) (ls : List (Option Str)) (flags : List Str) :
    Prop :=
  ∃ pre defines post, ls = pre ++ some (C_DEFINES ++ defines) :: post ∧
    split defines = some flags ∧ (∀ line ∈ pre, ReadableLine split line) ∧
    ∀ line ∈ post, PlainLine line

theorem PlainLine.readable {line : Option Str} (h : PlainLine line) : ReadableLine split line := by
  obtain ⟨text, rfl, hplain⟩ := h
  refine ⟨text, rfl, ?_⟩
  rintro defines rfl
  exact absurd (List.prefix_append C_DEFINES defines) hplain

theorem not_plainLine_define (defines : Str) : ¬ PlainLine (some (C_DEFINES ++ defines)) := by
  rintro ⟨text, h, hplain⟩
  cases h
  exact hplain (List.prefix_append C_DEFINES defines)

theorem exists_define_iff {defines : Str} {P : Str → Prop} :
    (∃ defines', some (C_DEFINES ++ defines) = some (C_DEFINES ++ defines') ∧ P defines') ↔
      P defines := by
  simp only [Option.some.injEq, List.append_cancel_left_eq, exists_eq_left']

theorem readableLine_define {defines : Str} :
    ReadableLine split (some (C_DEFINES ++ defines)) ↔ (split defines).isSome = true := by
  simp only [ReadableLine, Option.some.injEq, exists_eq_left', List.append_cancel_left_eq,
    forall_eq']

theorem not_decidedBy_nil (flags : List Str) : ¬ DecidedBy split [] flags := by
  rintro ⟨pre, defines, post, h, -⟩
  cases pre with
  | nil => cases h
  | cons line pre => cases h

/-- Either a line behind the first decides, or the first one does. -/
theorem decidedBy_cons {line : Option Str} {rest : List (Option Str)} {flags : List Str} :
    DecidedBy split (line :: rest) flags ↔
      ReadableLine split line ∧ DecidedBy split rest flags ∨
        (∃ defines, line = some (C_DEFINES ++ defines) ∧ split defines = some flags) ∧
          ∀ later ∈ rest, PlainLine later := by
  constructor
  · rintro ⟨pre, defines, post, h, hsplit, hpre, hpost⟩
    cases pre with
    | nil =>
        cases h
        exact .inr ⟨⟨defines, rfl, hsplit⟩, hpost⟩
    | cons first pre =>
        cases h
        obtain ⟨hfirst, hrest⟩ := List.forall_mem_cons.mp hpre
        exact .inl ⟨hfirst, pre, defines, post, rfl, hsplit, hrest, hpost⟩
  · intro h
    rcases h with ⟨hline, pre, defines, post, rfl, hsplit, hpre, hpost⟩ |
      ⟨⟨defines, rfl, hsplit⟩, hpost⟩
    · exact ⟨line :: pre, defines, post, rfl, hsplit,
        List.forall_mem_cons.mpr ⟨hline, hpre⟩, hpost⟩
    · exact ⟨[], defines, rest, rfl, hsplit, by simp, hpost⟩

/-- What the loop ends with: the flags it has if no define line is left. -/
theorem flagsMakeLoop_eq_some_iff {ls : List (Option Str)} {acc : Option (List Str)}
    {flags : List Str} :
    flagsMakeLoop split acc ls = some flags ↔
      acc = some flags ∧ (∀ line ∈ ls, PlainLine line) ∨ DecidedBy split ls flags := by
  induction ls generalizing acc with
  | nil =>
      show acc = some flags ↔ _
      simp [not_decidedBy_nil]
  | cons line rest ih =>
      rw [decidedBy_cons, List.forall_mem_cons]
      cases line with
      | none =>
          -- a line that is no UTF-8 ends the function
          simp [flagsMakeLoop, PlainLine, ReadableLine]
      | some text =>
          by_cases hdefine : C_DEFINES <+: text
          · obtain ⟨defines, rfl⟩ := hdefine
            rw [readableLine_define, exists_define_iff]
            have hplain := not_plainLine_define defines
            cases hsplit : split defines with
            | none => simp [flagsMakeLoop, Str.stripPrefix_append, hsplit, hplain]
            | some words =>
                rw [flagsMakeLoop_line hsplit, ih]
                simp only [hplain, Option.isSome_some, false_and, and_false, true_and, false_or]
                exact or_comm
          · have hplain : PlainLine (some text) := ⟨text, rfl, hdefine⟩
            have hread : ReadableLine split (some text) := hplain.readable
            have hnone : ¬ ∃ defines, some text = some (C_DEFINES ++ defines) ∧
                split defines = some flags := by
              rintro ⟨defines, h, -⟩
              exact hdefine ⟨defines, (Option.some.inj h).symm⟩
            rw [flagsMakeLoop, Str.stripPrefix_eq_none hdefine]
            simp only [ih, hplain, hread, hnone, true_and, false_and,
              or_false]

/-- **Every `flags.make`.** The reader gives flags exactly when it could read
the file, some line is a define line, the last such line splits into them,
and no line is other than UTF-8 or a define line that does not split. -/
theorem extractFromFlagsMake_eq_some_iff (os : Os) (split : Str → Option (List Str)) (path : Path)
    (flags : List Str) :
    extractFromFlagsMake os split path = some flags ↔
      ∃ file, os.readFile path = some file ∧ DecidedBy split (lines file) flags := by
  unfold extractFromFlagsMake
  cases os.readFile path with
  | none => simp
  | some file =>
      simp only [flagsMakeLoop_eq_some_iff, Option.some.injEq, exists_eq_left', reduceCtorEq,
        false_and, false_or]

end FlagsMake

/-! ## Reading `mgba.vcxproj` -/

theorem blank_notMem {s : Str} (h : Str.Blank s) {c : Char} (hc : isWhitespace c = false) :
    c ∉ s := by
  intro hmem
  rw [h c hmem] at hc
  cases hc

/-- No entry holds a separator or the start of a tag. -/
theorem Entries.noMarkup {ds es : List Str} (h : Entries ds es) (hds : ∀ d ∈ ds, Define d) :
    ∀ entry ∈ es, ∀ c ∈ entry, c ≠ ';' ∧ c ≠ '<' := by
  have hblank : ∀ s : Str, Str.Blank s → ∀ c ∈ s, c ≠ ';' ∧ c ≠ '<' := by
    intro s hs c hc
    exact ⟨fun h => blank_notMem hs (c := ';') rfl (h ▸ hc),
      fun h => blank_notMem hs (c := '<') rfl (h ▸ hc)⟩
  induction h with
  | nil => exact List.forall_mem_nil _
  | blank hentry _ ih => exact List.forall_mem_cons.mpr ⟨hblank _ hentry, ih hds⟩
  | reference hlead hsemi htag _ ih =>
      refine List.forall_mem_cons.mpr ⟨?_, ih hds⟩
      rw [List.forall_mem_append, List.forall_mem_append]
      exact ⟨⟨hblank _ hlead, Str.forall_mem_of_all rfl⟩,
        fun c hc => ⟨fun h => hsemi (h ▸ hc), fun h => htag (h ▸ hc)⟩⟩
  | define hlead htrail _ ih =>
      obtain ⟨hd, hrest⟩ := List.forall_mem_cons.mp hds
      refine List.forall_mem_cons.mpr ⟨?_, ih hrest⟩
      rw [List.forall_mem_append, List.forall_mem_append]
      exact ⟨⟨hblank _ hlead, fun c hc => ⟨(hd.noMarkup c hc).1, (hd.noMarkup c hc).2.1⟩⟩,
        hblank _ htrail⟩

/-- Trimming and filtering leave the defines, in order. -/
theorem Entries.kept {ds es : List Str} (h : Entries ds es) (hds : ∀ d ∈ ds, Define d) :
    (es.map Str.trim).filter isDefine = ds := by
  induction h with
  | nil => rfl
  | @blank ds es entry hentry _ ih =>
      have htrim : Str.trim entry = [] := Fields.strip_blank hentry
      rw [List.map_cons, htrim, List.filter_cons_of_neg (by decide), ih hds]
  | @reference ds es lead name hlead _ _ _ ih =>
      have htrim : Str.trim (lead ++ MACRO ++ name) =
          MACRO ++ name.rdropWhile isWhitespace := by
        rw [List.append_assoc]
        refine (Fields.strip_of_head (x := '%') hlead rfl ('(' :: name)).trans ?_
        rw [show MACRO = '%' :: ['('] from rfl]
        exact congrArg _ (Fields.rdropWhile_append_cons (x := '(') rfl [] name)
      have hdrop : ¬ isDefine (MACRO ++ name.rdropWhile isWhitespace) = true := by
        rw [isDefine_iff]
        exact fun h => h.2 (List.prefix_append _ _)
      rw [List.map_cons, htrim, List.filter_cons_of_neg hdrop, ih hds]
  | @define d ds es lead trail hlead htrail _ ih =>
      obtain ⟨hd, hrest⟩ := List.forall_mem_cons.mp hds
      have htrim : Str.trim (lead ++ d ++ trail) = d := Fields.strip_word hlead htrail hd.noBlank
      have hkeep : isDefine d = true := (isDefine_iff d).mpr ⟨hd.nonempty, hd.noMacro⟩
      rw [List.map_cons, htrim, List.filter_cons_of_pos hkeep, ih hrest]

theorem elementFlags_entries {ds es : List Str} (h : Entries ds es) (hds : ∀ d ∈ ds, Define d)
    (hne : es ≠ []) : elementFlags ([';'].intercalate es) = ds.map dashD := by
  have hsplit : ([';'].intercalate es).splitOn ';' = es :=
    List.splitOn_intercalate ';'
      (fun entry hentry hmem => (h.noMarkup hds entry hentry ';' hmem).1 rfl) hne
  rw [elementFlags, hsplit, h.kept hds]

/-- A laid-out element comes first in the text, whatever follows it. -/
theorem Elements.of_element {ds es : List Str} {gap rest : Str} {raws : List Str}
    (hgap : ¬ OPEN <:+: gap) (h : Entries ds es) (hds : ∀ d ∈ ds, Define d)
    (hrest : Elements rest raws) :
    Elements (element gap es ++ rest) ([';'].intercalate es :: raws) := by
  have hopen : Offset.First OPEN (element gap es ++ rest) gap
      ([';'].intercalate es ++ CLOSE ++ rest) := by
    have htext : element gap es ++ rest = gap ++ OPEN ++ ([';'].intercalate es ++ CLOSE ++ rest) := by
      rw [element]
      simp only [List.append_assoc]
    rw [htext]
    exact .of_unbordered (show '<' ∉ OPEN.tail by decide) hgap
  have hclose : Offset.First CLOSE ([';'].intercalate es ++ CLOSE ++ rest)
      ([';'].intercalate es) rest := by
    refine .of_unbordered (show '<' ∉ CLOSE.tail by decide) fun hwithin => ?_
    have hmem : '<' ∈ [';'].intercalate es := hwithin.subset List.mem_cons_self
    exact Fields.forall_mem_intercalate (P := (· ≠ '<')) (by decide)
      (fun entry hentry c hc => (h.noMarkup hds entry hentry c hc).2) '<' hmem rfl
  exact .next hopen hclose hrest

theorem VcxprojLayout.elements {ds : List Str} {text : Str} (h : VcxprojLayout ds text)
    (hne : ds ≠ []) (hds : ∀ d ∈ ds, Define d) :
    ∃ raws, Elements text raws ∧ firstFlags raws = some (ds.map dashD) := by
  induction h with
  | @first gap es post hgap hes hentries =>
      obtain ⟨raws, hraws⟩ := Elements.exists post
      refine ⟨_, .of_element hgap hentries hds hraws, ?_⟩
      have hflags := elementFlags_entries hentries hds hes
      rw [firstFlags_hit (by simpa [hflags] using hne), hflags]
  | @hollow gap text es hgap hes hentries _ ih =>
      obtain ⟨raws, hraws, hfirst⟩ := ih
      refine ⟨_, .of_element hgap hentries (List.forall_mem_nil _) hraws, ?_⟩
      have hflags := elementFlags_entries hentries (List.forall_mem_nil _) hes
      rw [firstFlags_skip (by rw [hflags]; rfl), hfirst]

theorem extractFromVcxproj_layout {os : Os} {path : Path} {text : Str} {ds : List Str}
    (hne : ds ≠ []) (hds : ∀ d ∈ ds, Define d)
    (hfile : os.readFile path = some (Utf8.encode text)) (hlayout : VcxprojLayout ds text) :
    extractFromVcxproj os path = .ok (some (ds.map dashD)) := by
  obtain ⟨raws, hraws, hfirst⟩ := hlayout.elements hne hds
  rw [extractFromVcxproj_eq hfile hraws, hfirst]

/-! ## Agreement -/

/-- **The two layouts yield the same flags**, namely one `-D` flag for each
define, in order. -/
theorem layouts_yield_same_defines (split : Str → Option (List Str))
    (hsplit : SplitsUnquoted split) (os : Os) (makePath projPath : Path) (ds : List Str)
    (hne : ds ≠ []) (hds : ∀ d ∈ ds, Define d)
    (file : List Byte) (hmake : os.readFile makePath = some file)
    (hmakeLayout : FlagsMakeLayout ds file)
    (text : Str) (hproj : os.readFile projPath = some (Utf8.encode text))
    (hprojLayout : VcxprojLayout ds text) :
    extractFromFlagsMake os split makePath = some (ds.map dashD) ∧
      extractFromVcxproj os projPath = .ok (some (ds.map dashD)) :=
  ⟨extractFromFlagsMake_layout hsplit hne hds hmake hmakeLayout,
    extractFromVcxproj_layout hne hds hproj hprojLayout⟩

/-- Whichever generator wrote the build directory, `extract_c_defines` gives
the flags. -/
theorem extractCDefines_layout {split : Str → Option (List Str)} (hsplit : SplitsUnquoted split)
    {os : Os} {buildDir : Path} {ds : List Str} (hne : ds ≠ []) (hds : ∀ d ∈ ds, Define d)
    (hlayout :
      (os.pathExists (flagsMakePath buildDir) = true ∧
        ∃ file, os.readFile (flagsMakePath buildDir) = some file ∧ FlagsMakeLayout ds file) ∨
      (os.pathExists (flagsMakePath buildDir) = false ∧
        os.pathExists (vcxprojPath buildDir) = true ∧
        ∃ text, os.readFile (vcxprojPath buildDir) = some (Utf8.encode text) ∧
          VcxprojLayout ds text)) :
    extractCDefines os split buildDir = .ok (some (ds.map dashD)) := by
  rcases hlayout with ⟨hexists, file, hfile, hmake⟩ | ⟨habsent, hexists, text, hfile, hproj⟩
  · rw [extractCDefines, if_pos hexists, extractFromFlagsMake_layout hsplit hne hds hfile hmake]
  · rw [extractCDefines, if_neg (Bool.eq_false_iff.mp habsent), if_pos hexists,
      extractFromVcxproj_layout hne hds hfile hproj]

/-! ## Every build directory -/

theorem extractFromVcxproj_total (os : Os) (path : Path) :
    ∃ answer, extractFromVcxproj os path = .ok answer := by
  cases hread : (os.readFile path).bind Str.fromUtf8 with
  | none => exact ⟨none, by rw [extractFromVcxproj, hread]⟩
  | some content =>
      obtain ⟨file, hfile, hdecode⟩ := Option.bind_eq_some_iff.mp hread
      rw [Utf8.decode?_eq_some_iff.mp hdecode] at hfile
      obtain ⟨es, hes⟩ := Elements.exists content
      exact ⟨_, extractFromVcxproj_eq hfile hes⟩

theorem extractFromVcxproj_eq_some_iff (os : Os) (path : Path) (flags : List Str) :
    extractFromVcxproj os path = .ok (some flags) ↔
      ∃ content es, os.readFile path = some (Utf8.encode content) ∧ Elements content es ∧
        Answers es (some flags) := by
  cases hread : (os.readFile path).bind Str.fromUtf8 with
  | none =>
      refine iff_of_false (by simp [extractFromVcxproj, hread]) ?_
      rintro ⟨content, es, hfile, -⟩
      rw [hfile, Option.bind_some, Str.fromUtf8, Utf8.decode?_encode] at hread
      cases hread
  | some content =>
      obtain ⟨file, hfile, hdecode⟩ := Option.bind_eq_some_iff.mp hread
      have hcontent : file = Utf8.encode content := Utf8.decode?_eq_some_iff.mp hdecode
      subst hcontent
      obtain ⟨es, hes⟩ := Elements.exists content
      rw [extractFromVcxproj_eq hfile hes, Except.ok.injEq, eq_comm, ← answers_iff]
      constructor
      · intro h
        exact ⟨content, es, hfile, hes, h⟩
      · rintro ⟨content', es', hfile', hes', h⟩
        -- the file says which text, and the text which elements
        have hsame : content' = content := by
          have hdecode' : Utf8.decode? (Utf8.encode content) = some content' :=
            Utf8.decode?_eq_some_iff.mpr (Option.some.inj (hfile.symm.trans hfile'))
          rw [Utf8.decode?_encode] at hdecode'
          exact (Option.some.inj hdecode').symm
        subst hsame
        obtain rfl := hes'.unique hes
        exact h

/-- A `flags.make` that is there decides alone, a project file only where
there is none. -/
def BuildDirGives (os : Os) (split : Str → Option (List Str)) (buildDir : Path)
    (flags : List Str) : Prop :=
  if os.pathExists (flagsMakePath buildDir) = true then
    ∃ file, os.readFile (flagsMakePath buildDir) = some file ∧ DecidedBy split (lines file) flags
  else
    os.pathExists (vcxprojPath buildDir) = true ∧
      ∃ content es, os.readFile (vcxprojPath buildDir) = some (Utf8.encode content) ∧
        Elements content es ∧ Answers es (some flags)

/-- **Every build directory.** `extract_c_defines` never panics, and gives
flags exactly when the last define line of the `flags.make` has them and no
line of it is broken, or, where there is no such file, the leftmost element of
the project that has any. -/
theorem extractCDefines_eq_some_iff (os : Os) (split : Str → Option (List Str)) (buildDir : Path) :
    (∃ answer, extractCDefines os split buildDir = .ok answer) ∧
      ∀ flags, extractCDefines os split buildDir = .ok (some flags) ↔
        BuildDirGives os split buildDir flags := by
  unfold extractCDefines BuildDirGives
  by_cases hmake : os.pathExists (flagsMakePath buildDir) = true
  · simp only [if_pos hmake]
    refine ⟨⟨_, rfl⟩, ?_⟩
    intro flags
    rw [Except.ok.injEq, extractFromFlagsMake_eq_some_iff]
  · simp only [if_neg hmake]
    by_cases hproj : os.pathExists (vcxprojPath buildDir) = true
    · rw [if_pos hproj]
      refine ⟨extractFromVcxproj_total os _, ?_⟩
      intro flags
      rw [and_iff_right hproj]
      exact extractFromVcxproj_eq_some_iff os _ flags
    · rw [if_neg hproj]
      refine ⟨⟨none, rfl⟩, ?_⟩
      intro flags
      simp [hproj]

section Sample

/-- Two defines in a `flags.make` and in a project whose first element has
none. -/
def sampleDefines : List Str := ["A".toList, "B=1".toList]

def sampleFlagsMake : List Byte :=
  Utf8.encode "# é\r\nC_DEFINES = -DA -DB=1\nC_FLAGS = -O2\n".toList

def sampleVcxproj : Str :=
  element "é".toList [" ".toList, "%(P)".toList] ++
    (element "\n".toList ["A".toList, [], " B=1 ".toList, "\t%(P) ".toList] ++ "é".toList)

theorem sampleDefines_define : ∀ d ∈ sampleDefines, Define d := by
  refine List.forall_mem_cons.mpr ⟨?_, List.forall_mem_singleton.mpr ?_⟩
  · exact ⟨List.cons_ne_nil _ _, Str.forall_mem_of_all rfl, Str.forall_mem_of_all rfl,
      Str.forall_mem_of_all rfl, by decide⟩
  · exact ⟨List.cons_ne_nil _ _, Str.forall_mem_of_all rfl, Str.forall_mem_of_all rfl,
      Str.forall_mem_of_all rfl, by decide⟩

theorem sampleFlagsMake_layout : FlagsMakeLayout sampleDefines sampleFlagsMake := by
  refine ⟨["# é".toList], ["C_FLAGS = -O2".toList], ?_, by decide⟩
  exact .crlf (by decide) (.lf (by decide) (by decide) (.lf (by decide) (by decide) .nil))

theorem sampleVcxproj_layout : VcxprojLayout sampleDefines sampleVcxproj := by
  have hhollow : Entries [] [" ".toList, [] ++ MACRO ++ "P)".toList] :=
    .blank (by decide) (.reference (by decide) (by decide) (by decide) .nil)
  have hdefines : Entries sampleDefines
      [[] ++ "A".toList ++ [], [], " ".toList ++ "B=1".toList ++ " ".toList,
        "\t".toList ++ MACRO ++ "P) ".toList] :=
    .define (by decide) (by decide) (.blank (by decide) (.define (by decide) (by decide)
      (.reference (by decide) (by decide) (by decide) .nil)))
  exact .hollow (by decide) (by decide) hhollow (.first "é".toList (by decide) (by decide) hdefines)

theorem layouts_yield_same_defines_sample :
    extractFromFlagsMake
        (Os.ofFiles [(flagsMakePath [], sampleFlagsMake),
          (vcxprojPath [], Utf8.encode sampleVcxproj)])
        (fun text => some (shellWords text)) (flagsMakePath []) =
      some ["-DA".toList, "-DB=1".toList] ∧
    extractFromVcxproj
        (Os.ofFiles [(flagsMakePath [], sampleFlagsMake),
          (vcxprojPath [], Utf8.encode sampleVcxproj)])
        (vcxprojPath []) =
      .ok (some ["-DA".toList, "-DB=1".toList]) :=
  layouts_yield_same_defines (fun text => some (shellWords text)) (fun _ _ => rfl) _
    (flagsMakePath []) (vcxprojPath []) sampleDefines (by decide) sampleDefines_define
    sampleFlagsMake rfl sampleFlagsMake_layout sampleVcxproj rfl sampleVcxproj_layout

end Sample

end MgbaRs
