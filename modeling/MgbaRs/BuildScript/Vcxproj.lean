import MgbaRs.BuildScript.Os

/-!
# Scanning `mgba.vcxproj`

`extract_from_vcxproj` slices the text of a Visual Studio project between
open and close tags with a byte cursor, and returns the flags of the first
element that has any.

`Elements` says what the elements of a text are, without a cursor: each open
tag is paired with the nearest close tag after it, scanning goes on behind
that, and it ends where no complete element is left. A text whose next open
tag is never closed is such an end (`not_hasElement_of_unclosed`), which is
why the loop may give up there. `extractFromVcxproj_complete` is the result:
for every text the loop ends, never panics, and answers with the first
element that has a surviving entry.
-/

namespace MgbaRs

def OPEN : Str := "<PreprocessorDefinitions>".toList
def CLOSE : Str := "</PreprocessorDefinitions>".toList

/-- What a reference to another property list begins with. -/
def MACRO : Str := "%(".toList

/-- `format!("-D{s}")`. -/
def dashD (s : Str) : Str := "-D".toList ++ s

/-- The `filter`: `!s.is_empty() && !s.starts_with("%(")`. -/
def isDefine (s : Str) : Bool := !s.isEmpty && !MACRO.isPrefixOf s

theorem isDefine_iff (s : Str) : isDefine s = true ↔ s ≠ [] ∧ ¬ MACRO <+: s := by
  rw [isDefine, Bool.and_eq_true, Bool.not_eq_true', Bool.not_eq_true', List.isEmpty_eq_false_iff,
    ← Bool.not_eq_true, List.isPrefixOf_iff_prefix]

/-- The flags of one element. -/
def elementFlags (raw : Str) : List Str :=
  (((raw.splitOn ';').map Str.trim).filter isDefine).map dashD

/-- One round of the `while let`, from the byte offset `cursor`. -/
def vcxprojRound (content : Str) (cursor : Nat) :
    Except Fault (Flow Nat (Option (List Str))) := do
  let rest ← content.sliceFrom cursor
  match rest.find OPEN with
  | none => return .ret none
  | some start =>
      let absStart := cursor + start + OPEN.len
      let tail ← content.sliceFrom absStart
      match tail.find CLOSE with
      | none => return .ret none
      | some stop =>
          let raw ← content.slice absStart (absStart + stop)
          let flags := elementFlags raw
          if flags.isEmpty then return .next (absStart + stop + CLOSE.len)
          else return .ret (some flags)

/-! ## What a round does

A round from the end of `pre` sees the text behind it only. -/

theorem vcxprojRound_unopened {pre text : Str} (hopen : ¬ OPEN <:+: text) :
    vcxprojRound (pre ++ text) pre.len = .ok (.ret none) := by
  have hfind : text.find OPEN = none := Offset.find?_eq_none_iff.mpr hopen
  simp only [vcxprojRound, Str.sliceFrom_append, bind, Except.bind, hfind]
  rfl

/-- The next open tag is never closed: the `?` returns `None`. -/
theorem vcxprojRound_unclosed {pre text gap tail : Str} (hopen : Offset.First OPEN text gap tail)
    (hclose : ¬ CLOSE <:+: tail) : vcxprojRound (pre ++ text) pre.len = .ok (.ret none) := by
  have hfind : text.find OPEN = some gap.len := Offset.find?_of_first hopen
  have hfind' : tail.find CLOSE = none := Offset.find?_eq_none_iff.mpr hclose
  have htail : (pre ++ text).sliceFrom (pre.len + gap.len + OPEN.len) = .ok tail := by
    rw [← Str.len_append, ← Str.len_append, hopen.split, ← List.append_assoc,
      ← List.append_assoc, Str.sliceFrom_append]
  simp only [vcxprojRound, Str.sliceFrom_append, bind, Except.bind, hfind, htail, hfind']
  rfl

/-- The next element is complete: its flags are returned, or the loop goes on
behind its close tag. -/
theorem vcxprojRound_element (pre : Str) {text gap tail raw rest : Str}
    (hopen : Offset.First OPEN text gap tail) (hclose : Offset.First CLOSE tail raw rest) :
    vcxprojRound (pre ++ text) pre.len =
      .ok (if (elementFlags raw).isEmpty then
          .next (pre ++ (gap ++ OPEN ++ raw ++ CLOSE)).len
        else .ret (some (elementFlags raw))) := by
  have hfind : text.find OPEN = some gap.len := Offset.find?_of_first hopen
  have hfind' : tail.find CLOSE = some raw.len := Offset.find?_of_first hclose
  have hsplit : pre ++ text = (pre ++ gap ++ OPEN) ++ (raw ++ (CLOSE ++ rest)) := by
    rw [hopen.split, hclose.split]
    simp only [List.append_assoc]
  have hstart : pre.len + gap.len + OPEN.len = (pre ++ gap ++ OPEN).len := by
    rw [Str.len_append, Str.len_append]
  have htail : (pre ++ text).sliceFrom (pre ++ gap ++ OPEN).len = .ok tail := by
    rw [hsplit, Str.sliceFrom_append, hclose.split, List.append_assoc]
  have hraw : (pre ++ text).slice (pre ++ gap ++ OPEN).len
      ((pre ++ gap ++ OPEN).len + raw.len) = .ok raw := by
    rw [hsplit, Str.slice_append]
  have hnext : (pre ++ gap ++ OPEN).len + raw.len + CLOSE.len =
      (pre ++ (gap ++ OPEN ++ raw ++ CLOSE)).len := by
    simp only [Str.len_append]
    omega
  simp only [vcxprojRound, Str.sliceFrom_append, bind, Except.bind, hfind, hstart, htail, hfind',
    hraw, hnext]
  split <;> rfl

/-- A text has no open tag, or a first one that is closed or not. -/
theorem tags_cases (text : Str) :
    (¬ OPEN <:+: text) ∨
    (∃ gap tail, Offset.First OPEN text gap tail ∧ ¬ CLOSE <:+: tail) ∨
    (∃ gap tail raw rest, Offset.First OPEN text gap tail ∧
      Offset.First CLOSE tail raw rest) := by
  by_cases hopen : OPEN <:+: text
  · obtain ⟨gap, tail, hfirst⟩ := Offset.First.exists_of_infix hopen
    by_cases hclose : CLOSE <:+: tail
    · obtain ⟨raw, rest, hfirst'⟩ := Offset.First.exists_of_infix hclose
      exact .inr (.inr ⟨gap, tail, raw, rest, hfirst, hfirst'⟩)
    · exact .inr (.inl ⟨gap, tail, hfirst, hclose⟩)
  · exact .inl hopen

/-- A round that goes on moves the cursor forward and keeps it in the text. -/
theorem vcxprojRound_next {content : Str} {cursor cursor' : Nat}
    (h : vcxprojRound content cursor = .ok (.next cursor')) :
    cursor < cursor' ∧ cursor' ≤ content.len := by
  cases hslice : content.sliceFrom cursor with
  | error fault =>
      simp only [vcxprojRound, hslice, bind, Except.bind] at h
      cases h
  | ok text =>
      obtain ⟨pre, rfl, rfl⟩ := Str.eq_of_sliceFrom hslice
      rcases tags_cases text with hopen | ⟨gap, tail, hopen, hclose⟩ |
        ⟨gap, tail, raw, rest, hopen, hclose⟩
      · rw [vcxprojRound_unopened hopen] at h
        cases h
      · rw [vcxprojRound_unclosed hopen hclose] at h
        cases h
      · rw [vcxprojRound_element pre hopen hclose] at h
        split at h
        · cases h
          have hclosed : 0 < CLOSE.len := by decide
          rw [hopen.split, hclose.split]
          simp only [Str.len_append]
          omega
        · cases h

/-- The loop of `extract_from_vcxproj`. -/
def vcxprojLoop (content : Str) (cursor : Nat) : Except Fault (Option (List Str)) :=
  match h : vcxprojRound content cursor with
  | .error fault => .error fault
  | .ok (.ret flags) => .ok flags
  | .ok (.next cursor') =>
      have := vcxprojRound_next h
      vcxprojLoop content cursor'
termination_by content.len - cursor

theorem vcxprojLoop_of_ret {content : Str} {cursor : Nat} {flags : Option (List Str)}
    (h : vcxprojRound content cursor = .ok (.ret flags)) :
    vcxprojLoop content cursor = .ok flags := by
  rw [vcxprojLoop]
  split <;> simp_all

theorem vcxprojLoop_of_next {content : Str} {cursor cursor' : Nat}
    (h : vcxprojRound content cursor = .ok (.next cursor')) :
    vcxprojLoop content cursor = vcxprojLoop content cursor' := by
  rw [vcxprojLoop]
  split <;> simp_all

/-- `extract_from_vcxproj`. -/
def extractFromVcxproj (os : Os) (path : Path) : Except Fault (Option (List Str)) :=
  match (os.readFile path).bind Str.fromUtf8 with
  | none => .ok none
  | some content => vcxprojLoop content 0

/-! ## The elements of a text -/

/-- An open tag with a close tag somewhere behind it. -/
def HasElement (text : Str) : Prop := ∃ a raw b, text = a ++ OPEN ++ raw ++ CLOSE ++ b

/-- The elements of a text, from left to right and without overlap. -/
inductive Elements : Str → List Str → Prop
  | done {text : Str} : ¬ HasElement text → Elements text []
  | next {text gap tail raw rest : Str} {es : List Str} :
      Offset.First OPEN text gap tail → Offset.First CLOSE tail raw rest →
      Elements rest es → Elements text (raw :: es)

theorem hasElement_of_first {text gap tail raw rest : Str} (hopen : Offset.First OPEN text gap tail)
    (hclose : Offset.First CLOSE tail raw rest) : HasElement text :=
  ⟨gap, raw, rest, by rw [hopen.split, hclose.split]; simp only [List.append_assoc]⟩

theorem not_hasElement_of_unopened {text : Str} (hopen : ¬ OPEN <:+: text) :
    ¬ HasElement text := by
  rintro ⟨a, raw, b, rfl⟩
  exact hopen ⟨a, raw ++ CLOSE ++ b, by simp only [List.append_assoc]⟩

/-- Behind an open tag that is never closed there is no complete element
either: its close tag would close the first tag too. -/
theorem not_hasElement_of_unclosed {text gap tail : Str} (hopen : Offset.First OPEN text gap tail)
    (hclose : ¬ CLOSE <:+: tail) : ¬ HasElement text := by
  rintro ⟨a, raw, b, htext⟩
  have hsplit : text = a ++ OPEN ++ (raw ++ CLOSE ++ b) := by
    rw [htext]
    simp only [List.append_assoc]
  have htag : CLOSE <:+: raw ++ CLOSE ++ b := ⟨raw, b, rfl⟩
  exact hclose (htag.trans (hopen.suffix hsplit).isInfix)

theorem Elements.unique {text : Str} {es es' : List Str} (h : Elements text es)
    (h' : Elements text es') : es = es' := by
  induction h generalizing es' with
  | done hnone =>
      cases h' with
      | done _ => rfl
      | next hopen hclose _ => exact absurd (hasElement_of_first hopen hclose) hnone
  | next hopen hclose _ ih =>
      cases h' with
      | done hnone => exact absurd (hasElement_of_first hopen hclose) hnone
      | next hopen' hclose' hrest' =>
          obtain ⟨-, rfl⟩ := hopen.unique hopen'
          obtain ⟨rfl, rfl⟩ := hclose.unique hclose'
          rw [ih hrest']

theorem Elements.exists (text : Str) : ∃ es, Elements text es := by
  induction hn : text.length using Nat.strongRecOn generalizing text with
  | ind n ih =>
      rcases tags_cases text with hopen | ⟨gap, tail, hopen, hclose⟩ |
        ⟨gap, tail, raw, rest, hopen, hclose⟩
      · exact ⟨[], .done (not_hasElement_of_unopened hopen)⟩
      · exact ⟨[], .done (not_hasElement_of_unclosed hopen hclose)⟩
      · have htag : 0 < OPEN.length := by decide
        have hshorter : rest.length < n := by
          rw [← hn, hopen.split, hclose.split]
          simp only [List.length_append]
          omega
        obtain ⟨es, hes⟩ := ih rest.length hshorter rest rfl
        exact ⟨raw :: es, .next hopen hclose hes⟩

/-! ## What the loop answers -/

/-- The flags of the first element that has any. -/
def firstFlags (es : List Str) : Option (List Str) :=
  (es.map elementFlags).find? fun flags => !flags.isEmpty

theorem firstFlags_skip {raw : Str} (h : (elementFlags raw).isEmpty = true) (es : List Str) :
    firstFlags (raw :: es) = firstFlags es := by
  simp only [firstFlags, List.map_cons, List.find?_cons, h, Bool.not_true]

theorem firstFlags_hit {raw : Str} (h : (elementFlags raw).isEmpty = false) (es : List Str) :
    firstFlags (raw :: es) = some (elementFlags raw) := by
  simp only [firstFlags, List.map_cons, List.find?_cons, h, Bool.not_false]

/-- From the end of any prefix, the loop answers the first flags of the text
behind it. The induction is on the elements of that text; the prefix grows by
one element at each round. -/
theorem vcxprojLoop_eq {text : Str} {es : List Str} (h : Elements text es) (pre : Str) :
    vcxprojLoop (pre ++ text) pre.len = .ok (firstFlags es) := by
  induction h generalizing pre with
  | @done text hnone =>
      have hround : vcxprojRound (pre ++ text) pre.len = .ok (.ret none) := by
        rcases tags_cases text with hopen | ⟨gap, tail, hopen, hclose⟩ |
          ⟨gap, tail, raw, rest, hopen, hclose⟩
        · exact vcxprojRound_unopened hopen
        · exact vcxprojRound_unclosed hopen hclose
        · exact absurd (hasElement_of_first hopen hclose) hnone
      rw [vcxprojLoop_of_ret hround]
      rfl
  | @next text gap tail raw rest es hopen hclose _ ih =>
      have hround := vcxprojRound_element pre hopen hclose
      cases hflags : (elementFlags raw).isEmpty with
      | true =>
          rw [hflags, if_pos rfl] at hround
          have htext : pre ++ text = pre ++ (gap ++ OPEN ++ raw ++ CLOSE) ++ rest := by
            rw [hopen.split, hclose.split]
            simp only [List.append_assoc]
          rw [vcxprojLoop_of_next hround, htext, ih, firstFlags_skip hflags]
      | false =>
          rw [hflags, if_neg Bool.false_ne_true] at hround
          rw [vcxprojLoop_of_ret hround, firstFlags_hit hflags]

/-- The filter keeps an entry, as `d` once the blanks around it are gone: `d` is
not empty and no reference to another property list. -/
structure Survives (entry d : Str) : Prop where
  trimmed : Fields.Stripped isWhitespace entry d
  nonempty : d ≠ []
  noMacro : ¬ ['%', '('] <+: d

def HasSurvivor (raw : Str) : Prop := ∃ entry ∈ raw.splitOn ';', ∃ d, Survives entry d

/-- The `-D` flags of the surviving entries, in order. -/
inductive SurvivingFlags : List Str → List Str → Prop
  | nil : SurvivingFlags [] []
  | keep {entry d : Str} {entries flags : List Str} :
      Survives entry d → SurvivingFlags entries flags →
      SurvivingFlags (entry :: entries) (('-' :: 'D' :: d) :: flags)
  | drop {entry : Str} {entries flags : List Str} :
      (∀ d, ¬ Survives entry d) → SurvivingFlags entries flags →
      SurvivingFlags (entry :: entries) flags

/-- What a scan of these elements should say. -/
def Answers (es : List Str) : Option (List Str) → Prop
  | none => ∀ raw ∈ es, ¬ HasSurvivor raw
  | some flags => ∃ before raw after, es = before ++ raw :: after ∧
      (∀ r ∈ before, ¬ HasSurvivor r) ∧ HasSurvivor raw ∧
      SurvivingFlags (raw.splitOn ';') flags

theorem survives_iff {entry d : Str} :
    Survives entry d ↔ d = entry.trim ∧ isDefine entry.trim = true := by
  rw [isDefine_iff]
  constructor
  · rintro ⟨htrimmed, hne, hmacro⟩
    obtain rfl := htrimmed.eq
    exact ⟨rfl, hne, hmacro⟩
  · rintro ⟨rfl, hne, hmacro⟩
    exact ⟨Fields.stripped_strip entry, hne, hmacro⟩

/-- Trimming, filtering and formatting give the surviving flags. -/
theorem survivingFlags_iff {entries flags : List Str} :
    SurvivingFlags entries flags ↔
      flags = ((entries.map Str.trim).filter isDefine).map dashD := by
  constructor
  · intro h
    induction h with
    | nil => rfl
    | keep hentry _ ih =>
        obtain ⟨rfl, hkeep⟩ := survives_iff.mp hentry
        rw [List.map_cons, List.filter_cons_of_pos hkeep, List.map_cons, ← ih]
        rfl
    | @drop entry _ _ hentry _ ih =>
        have hdrop : ¬ isDefine entry.trim = true := fun h => hentry _ (survives_iff.mpr ⟨rfl, h⟩)
        rw [List.map_cons, List.filter_cons_of_neg hdrop, ← ih]
  · rintro rfl
    induction entries with
    | nil => exact .nil
    | cons entry entries ih =>
        by_cases hkeep : isDefine entry.trim = true
        · rw [List.map_cons, List.filter_cons_of_pos hkeep, List.map_cons]
          exact .keep (survives_iff.mpr ⟨rfl, hkeep⟩) ih
        · rw [List.map_cons, List.filter_cons_of_neg hkeep]
          exact .drop (fun d hd => hkeep (survives_iff.mp hd).2) ih

theorem elementFlags_isEmpty (raw : Str) :
    (elementFlags raw).isEmpty = true ↔ ¬ HasSurvivor raw := by
  rw [elementFlags, List.isEmpty_iff, List.map_eq_nil_iff, List.filter_eq_nil_iff,
    List.forall_mem_map]
  simp only [HasSurvivor, survives_iff, exists_eq_left, not_exists, not_and]

/-- The scan says the flags of the first element that has any. -/
theorem answers_iff {es : List Str} {answer : Option (List Str)} :
    Answers es answer ↔ answer = firstFlags es := by
  induction es generalizing answer with
  | nil =>
      cases answer with
      | none => exact iff_of_true (List.forall_mem_nil _) rfl
      | some flags => simp [Answers, firstFlags]
  | cons raw es ih =>
      by_cases hraw : (elementFlags raw).isEmpty = true
      · have hnone := (elementFlags_isEmpty raw).mp hraw
        rw [firstFlags_skip hraw, ← ih]
        cases answer with
        | none => simp only [Answers, List.forall_mem_cons, hnone, not_false_eq_true, true_and]
        | some flags =>
            constructor
            · rintro ⟨before, r, after, hes, hbefore, hr, hflags⟩
              cases before with
              | nil =>
                  cases hes
                  exact absurd hr hnone
              | cons first before =>
                  cases hes
                  exact ⟨before, r, after, rfl, (List.forall_mem_cons.mp hbefore).2, hr, hflags⟩
            · rintro ⟨before, r, after, rfl, hbefore, hr, hflags⟩
              exact ⟨raw :: before, r, after, rfl, List.forall_mem_cons.mpr ⟨hnone, hbefore⟩, hr,
                hflags⟩
      · have hsome : HasSurvivor raw := not_not.mp (mt (elementFlags_isEmpty raw).mpr hraw)
        rw [firstFlags_hit (Bool.eq_false_iff.mpr hraw)]
        cases answer with
        | none =>
            refine iff_of_false (fun hnone => ?_) (by simp)
            exact hnone raw List.mem_cons_self hsome
        | some flags =>
            rw [Option.some.injEq, elementFlags, ← survivingFlags_iff]
            constructor
            · rintro ⟨before, r, after, hes, hbefore, -, hflags⟩
              cases before with
              | nil =>
                  cases hes
                  exact hflags
              | cons first before =>
                  cases hes
                  exact absurd hsome (hbefore _ List.mem_cons_self)
            · intro hflags
              exact ⟨[], raw, es, rfl, List.forall_mem_nil _, hsome, hflags⟩

theorem extractFromVcxproj_eq {os : Os} {path : Path} {content : Str} {es : List Str}
    (hfile : os.readFile path = some (Utf8.encode content)) (hes : Elements content es) :
    extractFromVcxproj os path = .ok (firstFlags es) := by
  have hread : (os.readFile path).bind Str.fromUtf8 = some content := by
    rw [hfile]
    exact Utf8.decode?_encode content
  simp only [extractFromVcxproj, hread]
  exact vcxprojLoop_eq hes []

/-- **The scanner is total and complete.** The elements of a text are
determined, and for every text in the file `extract_from_vcxproj` returns
what they say. -/
theorem extractFromVcxproj_complete (os : Os) (path : Path) (content : Str)
    (hfile : os.readFile path = some (Utf8.encode content)) :
    (∃! es, Elements content es) ∧
      ∀ es, Elements content es →
        ∃ answer, extractFromVcxproj os path = .ok answer ∧ Answers es answer := by
  obtain ⟨es, hes⟩ := Elements.exists content
  refine ⟨⟨es, hes, fun es' h => h.unique hes⟩, fun es' hes' => ?_⟩
  exact ⟨firstFlags es', extractFromVcxproj_eq hfile hes', answers_iff.mpr rfl⟩

/-- A close tag first, an element without entries, a nested open tag, and an
open tag that is never closed, between characters of two bytes. -/
def unbalanced : Str :=
  "é</PreprocessorDefinitions>é".toList ++ OPEN ++ (" ;%(é)".toList ++ CLOSE ++
    ("é".toList ++ OPEN ++ ("<PreprocessorDefinitions>; é".toList ++ CLOSE ++
      ([] ++ OPEN ++ "é".toList))))

theorem unbalanced_elements :
    Elements unbalanced [" ;%(é)".toList, "<PreprocessorDefinitions>; é".toList] := by
  have hopen : '<' ∉ OPEN.tail := by decide
  have hclose : '<' ∉ CLOSE.tail := by decide
  have hunclosed : ¬ HasElement ([] ++ OPEN ++ "é".toList) :=
    not_hasElement_of_unclosed (.of_unbordered hopen (by decide)) (by decide)
  refine .next (.of_unbordered hopen (by decide)) (.of_unbordered hclose (by decide)) ?_
  exact .next (.of_unbordered hopen (by decide)) (.of_unbordered hclose (by decide))
    (.done hunclosed)

theorem extractFromVcxproj_unbalanced :
    (∃! es, Elements unbalanced es) ∧
      extractFromVcxproj (Os.ofFiles [([], Utf8.encode unbalanced)]) [] =
        .ok (some ["-D<PreprocessorDefinitions>".toList, "-Dé".toList]) := by
  obtain ⟨hunique, hall⟩ :=
    extractFromVcxproj_complete (Os.ofFiles [([], Utf8.encode unbalanced)]) [] unbalanced rfl
  obtain ⟨answer, hrun, hanswers⟩ := hall _ unbalanced_elements
  refine ⟨hunique, ?_⟩
  rw [hrun, answers_iff.mp hanswers]
  decide

end MgbaRs
