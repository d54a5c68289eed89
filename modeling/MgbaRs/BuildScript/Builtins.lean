import MgbaRs.BuildScript.Os

/-!
# Looking for the compiler-rt archive

`wasm32_builtins_dir` goes through the clang versions of a wasi-sdk and the
flavors under each version's `lib`. Both loops propagate every failure with
`?`, so a version entry without a `lib` directory ends the whole search, and
an archive listed behind it is not found.

A readable file system is a `Tree`: what each path is, and the order in which
each directory lists its entries. `ArchiveReached` is the exact condition for
the search to do what it is for, and the order stops mattering exactly when
no version lacks a `lib` or there is no archive at all
(`wasm32BuiltinsDir_iff`).
-/

namespace MgbaRs

def LIB : Str := "lib".toList
def ARCHIVE : Str := "libclang_rt.builtins-wasm32.a".toList

def clangLib (wasiSdk : Path) : Path := (wasiSdk.join LIB).join "clang".toList

/-- The inner loop. -/
def flavorLoop (os : Os) : List (Option Path) → Flow Unit (Option Path)
  | [] => .next ()
  | none :: _ => .ret none
  | some dir :: rest =>
      if os.pathExists (dir.join ARCHIVE) = true then .ret (some dir) else flavorLoop os rest

/-- The outer loop. -/
def versionLoop (os : Os) : List (Option Path) → Option Path
  | [] => none
  | none :: _ => none
  | some version :: rest =>
      match os.readDir (version.join LIB) with
      | none => none
      | some flavors =>
          match flavorLoop os flavors with
          | .ret result => result
          | .next () => versionLoop os rest

/-- `wasm32_builtins_dir`. -/
def wasm32BuiltinsDir (os : Os) (wasiSdk : Path) : Option Path :=
  match os.readDir (clangLib wasiSdk) with
  | none => none
  | some versions => versionLoop os versions

/-! ## Readable directory trees -/

inductive Kind where
  | file (bytes : List Byte)
  | dir
deriving DecidableEq

/-- A file system that reads without errors. A path may be listed and lead
nowhere, as a dangling link does. -/
structure Tree where
  node : Path → Option Kind
  /-- The order in which a directory lists its entries. -/
  listing : Path → List Str
  closed : ∀ p name, (node (p.join name)).isSome = true → node p = some .dir
  complete : ∀ p name, (node (p.join name)).isSome = true → name ∈ listing p

namespace Tree

def os (t : Tree) : Os where
  pathExists p := (t.node p).isSome
  readFile p :=
    match t.node p with
    | some (.file bytes) => some bytes
    | _ => none
  readDir p :=
    if t.node p = some .dir then some ((t.listing p).map fun name => some (p.join name)) else none

/-- The same tree, listed in another order. -/
structure Relisted (t t' : Tree) : Prop where
  node : t'.node = t.node
  perm : ∀ p, (t'.listing p).Perm (t.listing p)

/-- The tree with one entry of a directory moved to the front. -/
def listFirst (t : Tree) (dir : Path) (name : Str) (h : name ∈ t.listing dir) : Tree where
  node := t.node
  listing p := if p = dir then name :: (t.listing dir).erase name else t.listing p
  closed := t.closed
  complete p other hother := by
    have hmem := t.complete p other hother
    split
    · rename_i hp
      rw [hp] at hmem
      exact (List.perm_cons_erase h).mem_iff.mp hmem
    · exact hmem

theorem relisted_listFirst (t : Tree) {dir : Path} {name : Str} (h : name ∈ t.listing dir) :
    Relisted t (t.listFirst dir name h) where
  node := rfl
  perm p := by
    show (if p = dir then name :: (t.listing dir).erase name else t.listing p).Perm (t.listing p)
    split
    · rename_i hp
      rw [hp]
      exact (List.perm_cons_erase h).symm
    · exact List.Perm.refl _

theorem listing_listFirst (t : Tree) {dir : Path} {name : Str} (h : name ∈ t.listing dir) :
    (t.listFirst dir name h).listing dir = name :: (t.listing dir).erase name :=
  if_pos rfl

end Tree

section Search

variable (t : Tree) (wasiSdk : Path)

def libDir (version : Str) : Path := ((clangLib wasiSdk).join version).join LIB

def flavorDir (version flavor : Str) : Path := (libDir wasiSdk version).join flavor

/-- The version entry is a directory with a `lib` directory in it. -/
def HasLib (version : Str) : Prop := t.node (libDir wasiSdk version) = some .dir

/-- The archive lies in one of the version's flavors. -/
def HoldsArchive (version : Str) : Prop :=
  ∃ flavor, (t.node ((flavorDir wasiSdk version flavor).join ARCHIVE)).isSome = true

/-- A directory the search is for. -/
def IsBuiltinsDir (d : Path) : Prop :=
  ∃ version flavor, d = flavorDir wasiSdk version flavor ∧ (t.node (d.join ARCHIVE)).isSome = true

/-- The search returns a directory with the archive, or there is none. -/
def SearchContract : Prop :=
  match wasm32BuiltinsDir t.os wasiSdk with
  | some d => IsBuiltinsDir t wasiSdk d
  | none => ∀ d, ¬ IsBuiltinsDir t wasiSdk d

/-- Whether something is found is the same for every order of listing. -/
def OrderBlind : Prop :=
  ∀ t', t.Relisted t' →
    (wasm32BuiltinsDir t'.os wasiSdk).isSome = (wasm32BuiltinsDir t.os wasiSdk).isSome

/-- One of these version entries holds the archive, and all before it have a
`lib`. -/
def Reached (versions : List Str) : Prop :=
  ∃ pre version post, versions = pre ++ version :: post ∧ HoldsArchive t wasiSdk version ∧
    ∀ u ∈ pre, HasLib t wasiSdk u

/-- No version holds the archive, or the search gets to one that does. -/
def ArchiveReached : Prop :=
  (∀ version, ¬ HoldsArchive t wasiSdk version) ∨
    Reached t wasiSdk (t.listing (clangLib wasiSdk))

variable {t wasiSdk}

theorem HoldsArchive.hasLib {version : Str} (h : HoldsArchive t wasiSdk version) :
    HasLib t wasiSdk version := by
  obtain ⟨flavor, hflavor⟩ := h
  have hdir : t.node (flavorDir wasiSdk version flavor) = some .dir := t.closed _ _ hflavor
  exact t.closed _ flavor (by rw [← flavorDir, hdir]; rfl)

theorem HasLib.version_dir {version : Str} (h : HasLib t wasiSdk version) :
    t.node ((clangLib wasiSdk).join version) = some .dir :=
  t.closed _ LIB (by rw [← libDir, h]; rfl)

theorem HasLib.clangLib_dir {version : Str} (h : HasLib t wasiSdk version) :
    t.node (clangLib wasiSdk) = some .dir :=
  t.closed _ version (by rw [h.version_dir]; rfl)

theorem HasLib.listed {version : Str} (h : HasLib t wasiSdk version) :
    version ∈ t.listing (clangLib wasiSdk) :=
  t.complete _ version (by rw [h.version_dir]; rfl)

theorem exists_isBuiltinsDir_iff :
    (∃ d, IsBuiltinsDir t wasiSdk d) ↔ ∃ version, HoldsArchive t wasiSdk version := by
  constructor
  · rintro ⟨d, version, flavor, rfl, harchive⟩
    exact ⟨version, flavor, harchive⟩
  · rintro ⟨version, flavor, harchive⟩
    exact ⟨_, version, flavor, rfl, harchive⟩

/-! ## The inner loop -/

/-- The first of these directories that has the archive. -/
theorem flavorLoop_eq (os : Os) (dir : Str → Path) (flavors : List Str) :
    flavorLoop os (flavors.map fun flavor => some (dir flavor)) =
      match flavors.find? fun flavor => os.pathExists ((dir flavor).join ARCHIVE) with
      | some flavor => .ret (some (dir flavor))
      | none => .next () := by
  induction flavors with
  | nil => rfl
  | cons flavor flavors ih =>
      rw [List.map_cons, flavorLoop, List.find?_cons]
      cases os.pathExists ((dir flavor).join ARCHIVE) with
      | true => rfl
      | false => exact ih

/-- The entries of a version's `lib`, as the inner loop gets them. -/
def flavorPaths (t : Tree) (wasiSdk : Path) (version : Str) : List (Option Path) :=
  (t.listing (libDir wasiSdk version)).map fun flavor => some (flavorDir wasiSdk version flavor)

theorem flavorLoop_found {version : Str} (h : HoldsArchive t wasiSdk version) :
    ∃ d, flavorLoop t.os (flavorPaths t wasiSdk version) = .ret (some d) ∧
      IsBuiltinsDir t wasiSdk d := by
  have hloop := flavorLoop_eq t.os (flavorDir wasiSdk version) (t.listing (libDir wasiSdk version))
  cases hfind : (t.listing (libDir wasiSdk version)).find? fun flavor =>
      t.os.pathExists ((flavorDir wasiSdk version flavor).join ARCHIVE) with
  | none =>
      -- a flavor that has the archive is listed, so the search for it does not fail
      obtain ⟨flavor, hflavor⟩ := h
      have hdir : t.node (flavorDir wasiSdk version flavor) = some .dir := t.closed _ _ hflavor
      have hlisted : flavor ∈ t.listing (libDir wasiSdk version) :=
        t.complete _ flavor (by rw [← flavorDir, hdir]; rfl)
      exact absurd hflavor (List.find?_eq_none.mp hfind flavor hlisted)
  | some flavor =>
      rw [hfind] at hloop
      have harchive := List.find?_some hfind
      exact ⟨flavorDir wasiSdk version flavor, hloop, version, flavor, rfl, harchive⟩

theorem flavorLoop_next {version : Str} (h : ¬ HoldsArchive t wasiSdk version) :
    flavorLoop t.os (flavorPaths t wasiSdk version) = .next () := by
  have hloop := flavorLoop_eq t.os (flavorDir wasiSdk version) (t.listing (libDir wasiSdk version))
  have hfind : (t.listing (libDir wasiSdk version)).find? (fun flavor =>
      t.os.pathExists ((flavorDir wasiSdk version flavor).join ARCHIVE)) = none := by
    rw [List.find?_eq_none]
    exact fun flavor _ hflavor => h ⟨flavor, hflavor⟩
  rw [hfind] at hloop
  exact hloop

/-! ## The outer loop

At a version entry it ends the search, returns, or goes on. -/

/-- The version entries, as the outer loop gets them. -/
def versionPaths (wasiSdk : Path) (versions : List Str) : List (Option Path) :=
  versions.map fun version => some ((clangLib wasiSdk).join version)

theorem readDir_lib {version : Str} (h : HasLib t wasiSdk version) :
    t.os.readDir (((clangLib wasiSdk).join version).join LIB) =
      some (flavorPaths t wasiSdk version) :=
  if_pos h

theorem versionLoop_stray {version : Str} (h : ¬ HasLib t wasiSdk version) (rest : List Str) :
    versionLoop t.os (versionPaths wasiSdk (version :: rest)) = none := by
  have hread : t.os.readDir (((clangLib wasiSdk).join version).join LIB) = none := if_neg h
  simp only [versionPaths, List.map_cons, versionLoop, hread]

theorem versionLoop_found {version : Str} (h : HoldsArchive t wasiSdk version) (rest : List Str) :
    ∃ d, versionLoop t.os (versionPaths wasiSdk (version :: rest)) = some d ∧
      IsBuiltinsDir t wasiSdk d := by
  obtain ⟨d, hloop, hd⟩ := flavorLoop_found h
  refine ⟨d, ?_, hd⟩
  simp only [versionPaths, List.map_cons, versionLoop, readDir_lib h.hasLib, hloop]

theorem versionLoop_pass {version : Str} (hlib : HasLib t wasiSdk version)
    (h : ¬ HoldsArchive t wasiSdk version) (rest : List Str) :
    versionLoop t.os (versionPaths wasiSdk (version :: rest)) =
      versionLoop t.os (versionPaths wasiSdk rest) := by
  simp only [versionPaths, List.map_cons, versionLoop, readDir_lib hlib, flavorLoop_next h]

/-- What the outer loop returns is a directory with the archive. -/
theorem isBuiltinsDir_of_versionLoop {versions : List Str} {d : Path}
    (h : versionLoop t.os (versionPaths wasiSdk versions) = some d) : IsBuiltinsDir t wasiSdk d := by
  induction versions with
  | nil => cases h
  | cons version versions ih =>
      by_cases harchive : HoldsArchive t wasiSdk version
      · obtain ⟨d', hloop, hd'⟩ := versionLoop_found harchive versions
        rw [hloop, Option.some.injEq] at h
        rw [← h]
        exact hd'
      · by_cases hlib : HasLib t wasiSdk version
        · rw [versionLoop_pass hlib harchive] at h
          exact ih h
        · rw [versionLoop_stray hlib] at h
          cases h

theorem not_reached_nil : ¬ Reached t wasiSdk [] := by
  rintro ⟨pre, version, post, hsplit, -, -⟩
  simp at hsplit

theorem reached_cons_iff {version : Str} {versions : List Str} :
    Reached t wasiSdk (version :: versions) ↔
      HoldsArchive t wasiSdk version ∨ HasLib t wasiSdk version ∧ Reached t wasiSdk versions := by
  constructor
  · rintro ⟨pre, v, post, hsplit, hv, hpre⟩
    cases pre with
    | nil =>
        rw [List.nil_append, List.cons.injEq] at hsplit
        rw [hsplit.1]
        exact .inl hv
    | cons u pre =>
        rw [List.cons_append, List.cons.injEq] at hsplit
        rw [List.forall_mem_cons, ← hsplit.1] at hpre
        exact .inr ⟨hpre.1, pre, v, post, hsplit.2, hv, hpre.2⟩
  · rintro (hversion | ⟨hlib, pre, v, post, rfl, hv, hpre⟩)
    · exact ⟨[], version, versions, rfl, hversion, List.forall_mem_nil _⟩
    · exact ⟨version :: pre, v, post, rfl, hv, List.forall_mem_cons.mpr ⟨hlib, hpre⟩⟩

/-- It returns one exactly when it gets to it. -/
theorem versionLoop_isSome_iff (versions : List Str) :
    (versionLoop t.os (versionPaths wasiSdk versions)).isSome = true ↔
      Reached t wasiSdk versions := by
  induction versions with
  | nil => exact ⟨fun h => (by cases h), fun h => absurd h not_reached_nil⟩
  | cons version versions ih =>
      rw [reached_cons_iff]
      by_cases harchive : HoldsArchive t wasiSdk version
      · obtain ⟨d, hloop, -⟩ := versionLoop_found harchive versions
        rw [hloop]
        exact ⟨fun _ => .inl harchive, fun _ => rfl⟩
      · by_cases hlib : HasLib t wasiSdk version
        · rw [versionLoop_pass hlib harchive, ih]
          exact ⟨fun h => .inr ⟨hlib, h⟩, fun h => (h.resolve_left harchive).2⟩
        · rw [versionLoop_stray hlib]
          exact ⟨fun h => (by cases h), fun h => absurd (h.resolve_left harchive).1 hlib⟩

/-! ## The search -/

/-- Where there is a clang directory, the search is the loop over its
entries. -/
theorem wasm32BuiltinsDir_eq_loop (hdir : t.node (clangLib wasiSdk) = some .dir) :
    wasm32BuiltinsDir t.os wasiSdk =
      versionLoop t.os (versionPaths wasiSdk (t.listing (clangLib wasiSdk))) := by
  have hread : t.os.readDir (clangLib wasiSdk) =
      some (versionPaths wasiSdk (t.listing (clangLib wasiSdk))) := if_pos hdir
  simp only [wasm32BuiltinsDir, hread]

theorem wasm32BuiltinsDir_no_clang (hdir : ¬ t.node (clangLib wasiSdk) = some .dir) :
    wasm32BuiltinsDir t.os wasiSdk = none := by
  have hread : t.os.readDir (clangLib wasiSdk) = none := if_neg hdir
  simp only [wasm32BuiltinsDir, hread]

theorem isBuiltinsDir_of_found {d : Path} (h : wasm32BuiltinsDir t.os wasiSdk = some d) :
    IsBuiltinsDir t wasiSdk d := by
  by_cases hdir : t.node (clangLib wasiSdk) = some .dir
  · rw [wasm32BuiltinsDir_eq_loop hdir] at h
    exact isBuiltinsDir_of_versionLoop h
  · rw [wasm32BuiltinsDir_no_clang hdir] at h
    cases h

theorem found_iff_reached :
    (wasm32BuiltinsDir t.os wasiSdk).isSome = true ↔
      Reached t wasiSdk (t.listing (clangLib wasiSdk)) := by
  by_cases hdir : t.node (clangLib wasiSdk) = some .dir
  · rw [wasm32BuiltinsDir_eq_loop hdir]
    exact versionLoop_isSome_iff _
  · rw [wasm32BuiltinsDir_no_clang hdir]
    refine ⟨fun h => (by cases h), ?_⟩
    rintro ⟨pre, version, post, -, hversion, -⟩
    exact absurd hversion.hasLib.clangLib_dir hdir

theorem searchContract_iff : SearchContract t wasiSdk ↔ ArchiveReached t wasiSdk := by
  cases hfound : wasm32BuiltinsDir t.os wasiSdk with
  | some d =>
      have hreached : Reached t wasiSdk (t.listing (clangLib wasiSdk)) := by
        rw [← found_iff_reached, hfound]
        rfl
      simp only [SearchContract, hfound]
      exact ⟨fun _ => .inr hreached, fun _ => isBuiltinsDir_of_found hfound⟩
  | none =>
      have hnot : ¬ Reached t wasiSdk (t.listing (clangLib wasiSdk)) := by
        rw [← found_iff_reached, hfound]
        exact Bool.false_ne_true
      simp only [SearchContract, hfound]
      rw [← not_exists, exists_isBuiltinsDir_iff, not_exists, ArchiveReached]
      exact ⟨.inl, fun h => h.resolve_right hnot⟩

/-! ## The order of listing -/

/-- With a holder of the archive listed first, the search finds it. -/
theorem found_listFirst {version : Str} (h : HoldsArchive t wasiSdk version) :
    (wasm32BuiltinsDir (t.listFirst (clangLib wasiSdk) version h.hasLib.listed).os
      wasiSdk).isSome = true := by
  rw [found_iff_reached, Tree.listing_listFirst, reached_cons_iff]
  exact .inl h

/-- With a version without a `lib` listed first, it finds nothing. -/
theorem not_found_listFirst {version : Str} (hmem : version ∈ t.listing (clangLib wasiSdk))
    (hlib : ¬ HasLib t wasiSdk version) :
    (wasm32BuiltinsDir (t.listFirst (clangLib wasiSdk) version hmem).os wasiSdk).isSome ≠ true := by
  rw [ne_eq, found_iff_reached, Tree.listing_listFirst, reached_cons_iff]
  rintro (hversion | ⟨hversion, -⟩)
  · exact hlib hversion.hasLib
  · exact hlib hversion

/-- Where every version has a `lib`, the archive is found wherever it is. -/
theorem reached_of_hasLib {versions : List Str} {version : Str} (hmem : version ∈ versions)
    (h : HoldsArchive t wasiSdk version) (hlib : ∀ u ∈ versions, HasLib t wasiSdk u) :
    Reached t wasiSdk versions := by
  obtain ⟨pre, post, rfl⟩ := List.append_of_mem hmem
  exact ⟨pre, version, post, rfl, h, fun u hu => hlib u (List.mem_append_left _ hu)⟩

theorem Tree.Relisted.holdsArchive_iff {t' : Tree} (h : t.Relisted t') {version : Str} :
    HoldsArchive t' wasiSdk version ↔ HoldsArchive t wasiSdk version := by
  simp only [HoldsArchive, h.node]

theorem Tree.Relisted.hasLib_iff {t' : Tree} (h : t.Relisted t') {version : Str} :
    HasLib t' wasiSdk version ↔ HasLib t wasiSdk version := by
  simp only [HasLib, h.node]

theorem orderBlind_iff :
    OrderBlind t wasiSdk ↔
      ((∃ version, HoldsArchive t wasiSdk version) →
        ∀ version ∈ t.listing (clangLib wasiSdk), HasLib t wasiSdk version) := by
  constructor
  · rintro hblind ⟨holder, hholder⟩ version hmem
    by_contra hlib
    -- the holder listed first and the stray listed first would have to agree
    have hfound := hblind _ (t.relisted_listFirst hholder.hasLib.listed)
    have hnot := hblind _ (t.relisted_listFirst hmem)
    exact not_found_listFirst hmem hlib (by rw [hnot, ← hfound, found_listFirst hholder])
  · intro hlibs t' hrelisted
    rw [Bool.eq_iff_iff, found_iff_reached, found_iff_reached]
    by_cases hex : ∃ version, HoldsArchive t wasiSdk version
    · obtain ⟨holder, hholder⟩ := hex
      have hlib := hlibs ⟨holder, hholder⟩
      have hholder' : HoldsArchive t' wasiSdk holder := hrelisted.holdsArchive_iff.mpr hholder
      have hlib' : ∀ u ∈ t'.listing (clangLib wasiSdk), HasLib t' wasiSdk u :=
        fun u hu => hrelisted.hasLib_iff.mpr (hlib u ((hrelisted.perm _).mem_iff.mp hu))
      exact iff_of_true (reached_of_hasLib hholder'.hasLib.listed hholder' hlib')
        (reached_of_hasLib hholder.hasLib.listed hholder hlib)
    · refine iff_of_false ?_ ?_
      · rintro ⟨pre, version, post, -, hversion, -⟩
        exact hex ⟨version, hrelisted.holdsArchive_iff.mp hversion⟩
      · rintro ⟨pre, version, post, -, hversion, -⟩
        exact hex ⟨version, hversion⟩

end Search

/-- The search does what it is for exactly when no version without a `lib`
is listed before the first one that holds the archive, and it is blind to the
order exactly when there is no such version or no archive. -/
theorem wasm32BuiltinsDir_iff (t : Tree) (wasiSdk : Path) :
    (SearchContract t wasiSdk ↔ ArchiveReached t wasiSdk) ∧
      (OrderBlind t wasiSdk ↔
        ((∃ version, HoldsArchive t wasiSdk version) →
          ∀ version ∈ t.listing (clangLib wasiSdk), HasLib t wasiSdk version)) :=
  ⟨searchContract_iff, orderBlind_iff⟩

/-! ## A stray file -/

/-- The tree of these entries, each directory listing its own in their order. -/
def Tree.ofEntries (entries : List (Path × Kind))
    (h : ∀ e ∈ entries, e.1 ≠ [] → entries.lookup e.1.dropLast = some .dir) : Tree where
  node p := entries.lookup p
  listing p := entries.filterMap fun e => if e.1.dropLast = p then e.1.getLast? else none
  closed p name hentry := by
    obtain ⟨e, he, hpath⟩ := List.lookup_isSome_iff.mp hentry
    have hparent := h e he (by rw [← eq_of_beq hpath]; exact List.concat_ne_nil name p)
    rw [← eq_of_beq hpath] at hparent
    rwa [Path.join, List.dropLast_concat] at hparent
  complete p name hentry := by
    obtain ⟨e, he, hpath⟩ := List.lookup_isSome_iff.mp hentry
    refine List.mem_filterMap.mpr ⟨e, he, ?_⟩
    rw [← eq_of_beq hpath, Path.join, List.dropLast_concat, if_pos rfl, List.getLast?_concat]

def strayEntries : List (Path × Kind) :=
  let clang : Path := clangLib []
  let version : Path := clang.join "18".toList
  let flavor : Path := (version.join LIB).join "wasi".toList
  [([], .dir), ([LIB], .dir), (clang, .dir), (clang.join "README".toList, .file []),
    (version, .dir), (version.join LIB, .dir), (flavor, .dir), (flavor.join ARCHIVE, .file [])]

/-- A plain file listed before the version that holds the archive. -/
def strayTree : Tree := Tree.ofEntries strayEntries (by decide)

/-- The search ends at the file. -/
theorem search_stops_at_stray_file :
    wasm32BuiltinsDir strayTree.os [] = none ∧
      IsBuiltinsDir strayTree [] (flavorDir [] "18".toList "wasi".toList) ∧
      ¬ SearchContract strayTree [] := by
  have hnone : wasm32BuiltinsDir strayTree.os [] = none := by decide
  have hdir : IsBuiltinsDir strayTree [] (flavorDir [] "18".toList "wasi".toList) :=
    ⟨_, _, rfl, by decide⟩
  refine ⟨hnone, hdir, ?_⟩
  rw [SearchContract, hnone]
  exact fun hcontract => hcontract _ hdir

end MgbaRs
