import MgbaRs.BuildScript.Builtins
import MgbaRs.BuildScript.Defines
import MgbaRs.Lib.Preproc

/-!
# The build script as a whole

`main` of `mgba-sys/build.rs` configures and builds mGBA with cmake, compiles
the C files cmake leaves out, prints directives for cargo and generates the
bindings. Three parties have to agree on the layout of mGBA's structs, so all
three have to see the same macros: the core cmake builds, the files compiled
beside it, and bindgen.

`Ran` is what a run that did not panic has done. `main_macros_agree_iff` says,
name by name, when the compile beside the core and the bindings see a macro
as the core does, and `main_linkLibs` in which order the archives reach the
linker. How cmake compiles the core is not decided here: its arguments are
given (`Tools.core`), and `Tools.CompilesCore` is what is assumed of them.
-/

namespace MgbaRs

/-! ## The tools the script drives -/

/-- `env::var`; nothing for a variable that is unset. -/
abbrev Env := Str → Option Str

/-- `PathBuf::from`, and back by `display`. -/
def Path.ofStr (s : Str) : Path := s.splitOn '/'
def Path.display (p : Path) : Str := ['/'].intercalate p

/-- `cmake::Config`. -/
structure CmakeConfig where
  source : Str
  defines : List (Str × Str)
  cflags : List Str
  noDefaultFlags : Bool
deriving DecidableEq

/-- `cc::Build`, with the name of the archive. -/
structure CcBuild where
  compiler : Option Path
  target : Option Str
  includes : List Path
  flags : List Str
  defines : List (Str × Option Str)
  files : List Str
  lib : Str
deriving DecidableEq

/-- The arguments that reach the compiler. -/
def CcBuild.args (b : CcBuild) : List Str :=
  b.includes.map (fun dir => "-I".toList ++ dir.display) ++ b.flags ++
    b.defines.map fun (name, body) =>
      match body with
      | some body => dashD (name ++ '=' :: body)
      | none => dashD name

/-- `bindgen::Builder`. -/
structure BindgenJob where
  header : Str
  blocklist : List Str
  clangArgs : List Str
deriving DecidableEq

/-- What is printed for cargo. -/
inductive Directive where
  | linkSearch (dir : Str)
  | linkLib (lib : Str)
  | rerunIfChanged (file : Str)
  | rerunIfEnvChanged (name : Str)
deriving DecidableEq

/-- The line of a directive. -/
def Directive.line : Directive → Str
  | .linkSearch dir => "cargo:rustc-link-search=native=".toList ++ dir
  | .linkLib lib => "cargo:rustc-link-lib=".toList ++ lib
  | .rerunIfChanged file => "cargo:rerun-if-changed=".toList ++ file
  | .rerunIfEnvChanged name => "cargo:rerun-if-env-changed=".toList ++ name

inductive Action where
  | cmake (cfg : CmakeConfig)
  | compile (build : CcBuild)
  | println (d : Directive)
  | bindings (job : BindgenJob) (out : Path)
  | append (out : Path) (text : Str)
deriving DecidableEq

/-- The other programs, as far as they succeed, the arguments cmake compiles
the core with, and the file system it leaves behind. -/
structure Tools where
  cmake : CmakeConfig → Option Path
  core : CmakeConfig → List Str
  os : Os
  split : Str → Option (List Str)
  compile : CcBuild → Bool
  generate : BindgenJob → Bool
  write : Path → Bool
  append : Path → Bool

/-! ## The script -/

def FORCED_DEFINES : List Str :=
  ["COLOR_16_BIT".toList, "MINIMAL_CORE=1".toList, "DISABLE_THREADING".toList]

def unwrapVar (env : Env) (name : Str) : Except Fault Str :=
  match env name with
  | some value => .ok value
  | none => .error .unwrapErr

/-- `expect`, on a `Result` or an `Option`. -/
def expect {α : Type} (message : String) : Option α → Except Fault α
  | some a => .ok a
  | none => .error (.panic message)

def require (message : String) (done : Bool) : Except Fault Unit :=
  if done = true then .ok () else .error (.panic message)

/-- `wasi_sdk`. -/
def wasiSdk (env : Env) : Except Fault Path :=
  (expect "set WASI_SDK_PATH to a wasi-sdk root to build mgba for wasm32"
    (env "WASI_SDK_PATH".toList)).map Path.ofStr

/-- `if wasm { let sdk = wasi_sdk(); .. }`. -/
def sdkIf (env : Env) (wasm : Bool) : Except Fault (Option Path) :=
  if wasm then (wasiSdk env).map some else .ok none

def WASM_FLAGS : List Str :=
  ["-DNDEBUG".toList, "-D_GNU_SOURCE".toList, "-DPATH_MAX=4096".toList,
    "-D_WASI_EMULATED_SIGNAL".toList, "-DENABLE_VFS_FILE".toList]

def toolchainFile (sdk : Path) : Path :=
  ((sdk.join "share".toList).join "cmake".toList).join "wasi-sdk.cmake".toList

def sysroot (sdk : Path) : Path := (sdk.join "share".toList).join "wasi-sysroot".toList

def sysrootFlag (sdk : Path) : Str := "--sysroot=".toList ++ (sysroot sdk).display

/-- The cmake build; with an sdk, for wasm32. -/
def coreConfig (sdk : Option Path) : CmakeConfig :=
  let cfg : CmakeConfig :=
    { source := "mgba".toList
      defines := [("LIBMGBA_ONLY".toList, "on".toList), ("MINIMAL_CORE".toList, "ON".toList),
        ("USE_PTHREADS".toList, "OFF".toList)]
      cflags := FORCED_DEFINES.map dashD
      noDefaultFlags := false }
  match sdk with
  | none => cfg
  | some sdk =>
      { cfg with
        defines := cfg.defines ++
          [("CMAKE_TOOLCHAIN_FILE".toList, (toolchainFile sdk).display)]
        cflags := cfg.cflags ++ WASM_FLAGS
        noDefaultFlags := true }

def SIO_FILES : List Str :=
  ["mgba/src/gba/sio/lockstep.c".toList, "mgba/src/gba/sio/wireless.c".toList]

def coreIncludes (buildDir : Path) : List Path :=
  [Path.ofStr "mgba/include".toList, buildDir.join "include".toList]

/-- The link-cable drivers, beside a native core. -/
def sioBuild (msvc : Bool) (buildDir : Path) (flags : List Str) : CcBuild where
  compiler := none
  target := none
  includes := coreIncludes buildDir
  flags := (if msvc then ["-std:c11".toList] else []) ++ FORCED_DEFINES.map dashD ++ flags
  defines := []
  files := SIO_FILES
  lib := "mgba_sio".toList

/-- The same with the shims, beside a core for wasm32. -/
def shimBuild (sdk buildDir : Path) (flags : List Str) : CcBuild where
  compiler := some ((sdk.join "bin".toList).join "clang".toList)
  target := some "wasm32-wasip1".toList
  includes := coreIncludes buildDir
  flags := sysrootFlag sdk :: (FORCED_DEFINES.map dashD ++ flags)
  defines := [("_GNU_SOURCE".toList, none), ("PATH_MAX".toList, some "4096".toList),
    ("_WASI_EMULATED_SIGNAL".toList, none), ("NDEBUG".toList, none),
    ("ENABLE_VFS_FILE".toList, none)]
  files := ["shim.c".toList, "wasi-stubs.c".toList, "mgba/src/util/vfs/vfs-file.c".toList] ++
    SIO_FILES
  lib := "mgba_wasm_shim".toList

def BINDGEN_ARGS : List Str := ["-Imgba/include".toList, "-D__STDC_NO_THREADS__=1".toList]

def bindgenJob (sdk : Option Path) (flags : List Str) : BindgenJob where
  header := "wrapper.h".toList
  blocklist :=
    ["FP_INFINITE".toList, "FP_NAN".toList, "FP_NORMAL".toList, "FP_SUBNORMAL".toList,
      "FP_ZERO".toList, "FP_INT_UPWARD".toList, "FP_INT_DOWNWARD".toList,
      "FP_INT_TOWARDZERO".toList, "FP_INT_TONEARESTFROMZERO".toList, "FP_INT_TONEAREST".toList,
      "IPPORT_RESERVED".toList]
  clangArgs :=
    (match sdk with
      | some sdk => ["--target=wasm32-wasip1".toList, sysrootFlag sdk,
          "-fvisibility=default".toList]
      | none => []) ++
      BINDGEN_ARGS ++ FORCED_DEFINES.map dashD ++ flags

def CONFIGS : List Str :=
  ["Release".toList, "Debug".toList, "MinSizeRel".toList, "RelWithDebInfo".toList]

/-- What is printed whatever the target: where the core may lie. -/
def coreDirectives (buildDir : Path) : List Directive :=
  SIO_FILES.map .rerunIfChanged ++ [.linkSearch buildDir.display] ++
    CONFIGS.map (fun config => .linkSearch (buildDir.join config).display) ++
    [.linkLib "static=mgba".toList]

/-- What wasm32 adds after the shims. -/
def wasmDirectives (os : Os) (sdk : Path) : List Directive :=
  [.linkSearch (((sysroot sdk).join "lib".toList).join "wasm32-wasip1".toList).display,
    .linkLib "static=c".toList] ++
    (match wasm32BuiltinsDir os sdk with
      | some dir => [.linkSearch dir.display, .linkLib "static=clang_rt.builtins-wasm32".toList]
      | none => []) ++
    [.rerunIfChanged "shim.c".toList, .rerunIfChanged "wasi-stubs.c".toList,
      .rerunIfEnvChanged "WASI_SDK_PATH".toList]

def sourceDirectives : List Directive :=
  [.rerunIfChanged "wrapper.h".toList, .rerunIfChanged "build.rs".toList]

/-- `match target_os`. -/
def systemDirectives (targetOs : Str) : Except Fault (List Directive) :=
  if targetOs = "macos".toList then .ok [.linkLib "framework=Cocoa".toList]
  else if targetOs = "windows".toList then
    .ok [.linkLib "shlwapi".toList, .linkLib "ole32".toList, .linkLib "uuid".toList]
  else if targetOs = "linux".toList then .ok []
  else .error (.panic ("unknown target os \"" ++ String.ofList targetOs ++ "\"!"))

def runCompile (t : Tools) (build : CcBuild) : Except Fault (List Action) := do
  require "compile" (t.compile build)
  return [.compile build]

def SEEK_CONSTANTS : Str :=
  "pub const SEEK_SET: u32 = 0;\npub const SEEK_CUR: u32 = 1;\npub const SEEK_END: u32 = 2;\n".toList

/-- `if !wasm`: the drivers, before the core that they refer to. -/
def beforeCore (env : Env) (t : Tools) (sdk : Option Path) (buildDir : Path)
    (flags : List Str) : Except Fault (List Action) :=
  match sdk with
  | some _ => .ok []
  | none =>
      let msvc := env "CARGO_CFG_TARGET_ENV".toList == some "msvc".toList
      runCompile t (sioBuild msvc buildDir flags)

/-- `if wasm` and its `else`: the shims, after the core and before libc, or
the libraries of the system. -/
def afterCore (t : Tools) (targetOs : Str) (sdk : Option Path) (buildDir : Path)
    (flags : List Str) : Except Fault (List Action) :=
  match sdk with
  | some sdk => do
      let shim ← runCompile t (shimBuild sdk buildDir flags)
      return shim ++ (wasmDirectives t.os sdk).map .println
  | none => do
      let system ← systemDirectives targetOs
      return system.map .println

/-- The bindings, and on wasm32 what bindgen left out of them. -/
def runBindgen (env : Env) (t : Tools) (sdk : Option Path) (flags : List Str) :
    Except Fault (List Action) := do
  let job := bindgenJob sdk flags
  require "Unable to generate bindings" (t.generate job)
  let out := (Path.ofStr (← unwrapVar env "OUT_DIR".toList)).join "bindings.rs".toList
  require "Couldn't write bindings!" (t.write out)
  if sdk.isSome = true then do
    require "bindings.rs vanished" (t.append out)
    return [.bindings job out, .append out SEEK_CONSTANTS]
  else return [.bindings job out]

def main (env : Env) (t : Tools) : Except Fault (List Action) := do
  let targetOs ← unwrapVar env "CARGO_CFG_TARGET_OS".toList
  let targetArch ← unwrapVar env "CARGO_CFG_TARGET_ARCH".toList
  let sdk ← sdkIf env (targetArch == "wasm32".toList)
  let mgbaDst ← expect "cmake" (t.cmake (coreConfig sdk))
  let buildDir := mgbaDst.join "build".toList
  let flags ← expect "could not extract C_DEFINES from cmake build"
    (← extractCDefines t.os t.split buildDir)
  let before ← beforeCore env t sdk buildDir flags
  let after ← afterCore t targetOs sdk buildDir flags
  let bindings ← runBindgen env t sdk flags
  return [.cmake (coreConfig sdk)] ++ before ++ (coreDirectives buildDir).map .println ++ after ++
    sourceDirectives.map .println ++ bindings

/-! ## What a run has done -/

def Action.config? : Action → Option CmakeConfig
  | .cmake cfg => some cfg
  | _ => none

def Action.build? : Action → Option CcBuild
  | .compile build => some build
  | _ => none

def Action.job? : Action → Option BindgenJob
  | .bindings job _ => some job
  | _ => none

/-- What is handed to the linker; `cc` prints the directive for its archive
when it has built it. -/
def Action.lib? : Action → Option Str
  | .compile build => some ("static=".toList ++ build.lib)
  | .println (.linkLib lib) => some lib
  | _ => none

/-- The compile beside the core. -/
def besideBuild (env : Env) (sdk : Option Path) (buildDir : Path) (flags : List Str) : CcBuild :=
  match sdk with
  | none => sioBuild (env "CARGO_CFG_TARGET_ENV".toList == some "msvc".toList) buildDir flags
  | some sdk => shimBuild sdk buildDir flags

def systemLibs (targetOs : Str) : List Str :=
  if targetOs = "macos".toList then ["framework=Cocoa".toList]
  else if targetOs = "windows".toList then ["shlwapi".toList, "ole32".toList, "uuid".toList]
  else []

/-- The libraries handed to the linker, in order. -/
def linkOrder (targetOs : Str) (os : Os) : Option Path → List Str
  | none => ["static=mgba_sio".toList, "static=mgba".toList] ++ systemLibs targetOs
  | some sdk =>
      ["static=mgba".toList, "static=mgba_wasm_shim".toList, "static=c".toList] ++
        (if (wasm32BuiltinsDir os sdk).isSome then ["static=clang_rt.builtins-wasm32".toList]
        else [])

/-- A run that did not panic: for wasm32 with an sdk, otherwise without, on
the build directory and the flags cmake left behind. -/
structure Ran (env : Env) (t : Tools) (actions : List Action) (sdk : Option Path)
    (buildDir : Path) (flags : List Str) : Prop where
  arch : sdk.isSome = true ↔ env "CARGO_CFG_TARGET_ARCH".toList = some "wasm32".toList
  core : ∃ dst, t.cmake (coreConfig sdk) = some dst ∧ buildDir = dst.join "build".toList
  extracted : extractCDefines t.os t.split buildDir = .ok (some flags)
  configs : actions.filterMap Action.config? = [coreConfig sdk]
  builds : actions.filterMap Action.build? = [besideBuild env sdk buildDir flags]
  jobs : actions.filterMap Action.job? = [bindgenJob sdk flags]
  libs : ∃ targetOs, env "CARGO_CFG_TARGET_OS".toList = some targetOs ∧
    actions.filterMap Action.lib? = linkOrder targetOs t.os sdk

theorem ok_of_bind {α β : Type} {x : Except Fault α} {f : α → Except Fault β} {b : β}
    (h : x >>= f = .ok b) : ∃ a, x = .ok a ∧ f a = .ok b := by
  cases x with
  | error fault => cases h
  | ok a => exact ⟨a, rfl, h⟩

theorem unwrapVar_ok {env : Env} {name value : Str} (h : unwrapVar env name = .ok value) :
    env name = some value := by
  unfold unwrapVar at h
  split at h
  · rename_i v hv
    cases h
    exact hv
  · cases h

theorem expect_ok {α : Type} {message : String} {x : Option α} {a : α}
    (h : expect message x = .ok a) : x = some a := by
  cases x with
  | none => cases h
  | some b =>
      cases h
      rfl

theorem runCompile_ok {t : Tools} {build : CcBuild} {actions : List Action}
    (h : runCompile t build = .ok actions) : actions = [.compile build] := by
  obtain ⟨-, -, h⟩ := ok_of_bind h
  cases h
  rfl

theorem runBindgen_ok {env : Env} {t : Tools} {sdk : Option Path} {flags : List Str}
    {actions : List Action} (h : runBindgen env t sdk flags = .ok actions) :
    ∃ out rest, actions = .bindings (bindgenJob sdk flags) out :: rest ∧
      (rest = [] ∨ rest = [.append out SEEK_CONSTANTS]) := by
  obtain ⟨-, -, h⟩ := ok_of_bind h
  obtain ⟨dir, -, h⟩ := ok_of_bind h
  obtain ⟨-, -, h⟩ := ok_of_bind h
  split at h
  · obtain ⟨-, -, h⟩ := ok_of_bind h
    cases h
    exact ⟨_, _, rfl, .inr rfl⟩
  · cases h
    exact ⟨_, _, rfl, .inl rfl⟩

theorem sdkIf_isSome {env : Env} {wasm : Bool} {sdk : Option Path}
    (h : sdkIf env wasm = .ok sdk) : sdk.isSome = wasm := by
  unfold sdkIf at h
  cases wasm with
  | false =>
      cases h
      rfl
  | true =>
      cases hsdk : wasiSdk env with
      | error fault =>
          rw [hsdk] at h
          cases h
      | ok p =>
          rw [hsdk] at h
          cases h
          rfl

theorem beforeCore_ok {env : Env} {t : Tools} {sdk : Option Path} {buildDir : Path}
    {flags : List Str} {actions : List Action}
    (h : beforeCore env t sdk buildDir flags = .ok actions) :
    actions = if sdk.isSome then [] else [.compile (besideBuild env sdk buildDir flags)] := by
  cases sdk with
  | some sdk =>
      cases h
      rfl
  | none => exact runCompile_ok h

theorem systemDirectives_libs {targetOs : Str} {ds : List Directive}
    (h : systemDirectives targetOs = .ok ds) :
    (ds.map Action.println).filterMap Action.lib? = systemLibs targetOs := by
  unfold systemDirectives at h
  unfold systemLibs
  by_cases hmac : targetOs = "macos".toList
  · rw [if_pos hmac] at h ⊢
    cases h
    rfl
  · rw [if_neg hmac] at h ⊢
    by_cases hwin : targetOs = "windows".toList
    · rw [if_pos hwin] at h ⊢
      cases h
      rfl
    · rw [if_neg hwin] at h ⊢
      split at h
      · cases h
        rfl
      · cases h

theorem afterCore_native {t : Tools} {targetOs : Str} {buildDir : Path} {flags : List Str}
    {actions : List Action} (h : afterCore t targetOs none buildDir flags = .ok actions) :
    ∃ ds, systemDirectives targetOs = .ok ds ∧ actions = ds.map .println := by
  obtain ⟨ds, hds, h⟩ := ok_of_bind h
  cases h
  exact ⟨ds, hds, rfl⟩

theorem afterCore_wasm {t : Tools} {targetOs : Str} {sdk buildDir : Path} {flags : List Str}
    {actions : List Action} (h : afterCore t targetOs (some sdk) buildDir flags = .ok actions) :
    actions = .compile (shimBuild sdk buildDir flags) ::
      (wasmDirectives t.os sdk).map .println := by
  obtain ⟨shim, hshim, h⟩ := ok_of_bind h
  cases h
  rw [runCompile_ok hshim]
  rfl

/-- Printing builds nothing and generates nothing. -/
theorem filterMap_println {α : Type} {f : Action → Option α} (hf : ∀ d, f (.println d) = none)
    (ds : List Directive) : (ds.map Action.println).filterMap f = [] := by
  rw [List.filterMap_map, List.filterMap_eq_nil_iff]
  intro d _
  exact hf d

theorem wasmDirectives_libs (os : Os) (sdk : Path) :
    ((wasmDirectives os sdk).map Action.println).filterMap Action.lib? =
      "static=c".toList :: (if (wasm32BuiltinsDir os sdk).isSome then
        ["static=clang_rt.builtins-wasm32".toList] else []) := by
  unfold wasmDirectives
  cases wasm32BuiltinsDir os sdk <;> rfl

/-- The actions of a run in order: printing around what the three steps made. -/
def runActions (sdk : Option Path) (buildDir : Path) (before after bindings : List Action) :
    List Action :=
  [.cmake (coreConfig sdk)] ++ before ++ (coreDirectives buildDir).map .println ++ after ++
    sourceDirectives.map .println ++ bindings

theorem filterMap_runActions {α : Type} {f : Action → Option α}
    (hf : ∀ d, f (.println d) = none) (sdk : Option Path) (buildDir : Path)
    (before after bindings : List Action) :
    (runActions sdk buildDir before after bindings).filterMap f =
      [Action.cmake (coreConfig sdk)].filterMap f ++ before.filterMap f ++ after.filterMap f ++
        bindings.filterMap f := by
  simp only [runActions, List.filterMap_append, filterMap_println hf, List.append_nil]

theorem main_steps {env : Env} {t : Tools} {actions : List Action} (h : main env t = .ok actions) :
    ∃ targetOs sdk dst flags before after bindings,
      env "CARGO_CFG_TARGET_OS".toList = some targetOs ∧
      (sdk.isSome = true ↔ env "CARGO_CFG_TARGET_ARCH".toList = some "wasm32".toList) ∧
      t.cmake (coreConfig sdk) = some dst ∧
      extractCDefines t.os t.split (dst.join "build".toList) = .ok (some flags) ∧
      beforeCore env t sdk (dst.join "build".toList) flags = .ok before ∧
      afterCore t targetOs sdk (dst.join "build".toList) flags = .ok after ∧
      runBindgen env t sdk flags = .ok bindings ∧
      actions = runActions sdk (dst.join "build".toList) before after bindings := by
  obtain ⟨targetOs, hos, h⟩ := ok_of_bind h
  obtain ⟨targetArch, harch, h⟩ := ok_of_bind h
  obtain ⟨sdk, hsdk, h⟩ := ok_of_bind h
  obtain ⟨dst, hdst, h⟩ := ok_of_bind h
  obtain ⟨found, hfound, h⟩ := ok_of_bind h
  obtain ⟨flags, hflags, h⟩ := ok_of_bind h
  obtain ⟨before, hbefore, h⟩ := ok_of_bind h
  obtain ⟨after, hafter, h⟩ := ok_of_bind h
  obtain ⟨bindings, hbindings, h⟩ := ok_of_bind h
  cases h
  refine ⟨targetOs, sdk, dst, flags, before, after, bindings, unwrapVar_ok hos, ?_,
    expect_ok hdst, ?_, hbefore, hafter, hbindings, rfl⟩
  · rw [sdkIf_isSome hsdk, unwrapVar_ok harch, beq_iff_eq, Option.some.injEq]
  · rw [hfound, expect_ok hflags]

/-- The bindings step makes one set of bindings, and no other kind of thing. -/
theorem runBindgen_kinds {env : Env} {t : Tools} {sdk : Option Path} {flags : List Str}
    {actions : List Action} (h : runBindgen env t sdk flags = .ok actions) :
    actions.filterMap Action.config? = [] ∧ actions.filterMap Action.build? = [] ∧
      actions.filterMap Action.job? = [bindgenJob sdk flags] ∧
      actions.filterMap Action.lib? = [] := by
  obtain ⟨out, rest, rfl, rfl | rfl⟩ := runBindgen_ok h
  · exact ⟨rfl, rfl, rfl, rfl⟩
  · exact ⟨rfl, rfl, rfl, rfl⟩

/-- The two compile steps make one archive between them. -/
theorem compiles_kinds {env : Env} {t : Tools} {targetOs : Str} {sdk : Option Path}
    {buildDir : Path} {flags : List Str} {before after : List Action}
    (hbefore : beforeCore env t sdk buildDir flags = .ok before)
    (hafter : afterCore t targetOs sdk buildDir flags = .ok after) :
    before.filterMap Action.config? ++ after.filterMap Action.config? = [] ∧
      before.filterMap Action.build? ++ after.filterMap Action.build? =
        [besideBuild env sdk buildDir flags] ∧
      before.filterMap Action.job? ++ after.filterMap Action.job? = [] ∧
      before.filterMap Action.lib? ++ "static=mgba".toList :: after.filterMap Action.lib? =
        linkOrder targetOs t.os sdk := by
  cases sdk with
  | none =>
      obtain ⟨ds, hds, rfl⟩ := afterCore_native hafter
      rw [beforeCore_ok hbefore, filterMap_println (fun _ => rfl), filterMap_println (fun _ => rfl),
        filterMap_println (fun _ => rfl), systemDirectives_libs hds]
      exact ⟨rfl, rfl, rfl, rfl⟩
  | some p =>
      rw [beforeCore_ok hbefore, afterCore_wasm hafter]
      have hlibs := wasmDirectives_libs t.os p
      refine ⟨?_, ?_, ?_, ?_⟩
      · exact filterMap_println (fun _ => rfl) _
      · exact congrArg (shimBuild p buildDir flags :: ·) (filterMap_println (fun _ => rfl) _)
      · exact filterMap_println (fun _ => rfl) _
      · show "static=mgba".toList :: "static=mgba_wasm_shim".toList :: _ = _
        rw [hlibs]
        rfl

theorem main_ran {env : Env} {t : Tools} {actions : List Action} (h : main env t = .ok actions) :
    ∃ sdk buildDir flags, Ran env t actions sdk buildDir flags := by
  obtain ⟨targetOs, sdk, dst, flags, before, after, bindings, hos, harch, hcore, hflags, hbefore,
    hafter, hbindings, rfl⟩ := main_steps h
  obtain ⟨hconfig, hbuild, hjob, hlib⟩ := runBindgen_kinds hbindings
  obtain ⟨hconfig', hbuild', hjob', hlib'⟩ := compiles_kinds hbefore hafter
  refine ⟨sdk, dst.join "build".toList, flags, harch, ⟨dst, hcore, rfl⟩, hflags, ?_, ?_, ?_,
    targetOs, hos, ?_⟩
  · rw [filterMap_runActions (fun _ => rfl), hconfig, List.append_assoc, List.append_nil,
      List.append_assoc, hconfig']
    rfl
  · rw [filterMap_runActions (fun _ => rfl), hbuild, List.append_nil, List.append_assoc, hbuild']
    rfl
  · rw [filterMap_runActions (fun _ => rfl), hjob, List.append_assoc _ (before.filterMap _), hjob']
    rfl
  · rw [← hlib', runActions]
    simp only [List.filterMap_append, hlib, List.append_nil]
    have hcoreLibs : ((coreDirectives (dst.join "build".toList)).map Action.println).filterMap
        Action.lib? = ["static=mgba".toList] := rfl
    rw [hcoreLibs]
    simp only [List.append_assoc]
    show _ ++ ("static=mgba".toList :: (_ ++ [])) = _
    rw [List.append_nil]

/-! ## The macros each party sees -/

open Preproc (seen settings last Agree)

/-- Cmake compiles the core with the defines it leaves in `C_DEFINES`, then
with the flags it was given, then with `own`, such as the `-DNDEBUG` of a
release build. -/
def Tools.CompilesCore (t : Tools) (own : List Str) : Prop :=
  ∀ cfg dst flags, t.cmake cfg = some dst →
    extractCDefines t.os t.split (dst.join "build".toList) = .ok (some flags) →
    settings (t.core cfg) = settings (flags ++ cfg.cflags ++ own)

def forcedFlags : List Str := FORCED_DEFINES.map dashD

/-- The flags only a core for wasm32 is compiled with. -/
def wasmFlags (wasm : Bool) : List Str := if wasm then WASM_FLAGS else []

/-- When the archive beside the core sees `n` as the core does. What cmake's
own flags do to a macro is not passed on. -/
def BesideAgrees (wasm : Bool) (flags own : List Str) (n : Str) : Prop :=
  match last n (settings own) with
  | none => Agree n (settings forcedFlags) (settings flags)
  | some b => seen (forcedFlags ++ flags ++ wasmFlags wasm) n = b

/-- When bindgen is given what the script gave the core of `n`. -/
structure BindgenMatches (wasm : Bool) (flags : List Str) (n : Str) : Prop where
  forced : Agree n (settings forcedFlags) (settings flags)
  wasm32 : ∀ b, last n (settings (wasmFlags wasm)) = some b → last n (settings flags) = some b
  threads : n = "__STDC_NO_THREADS__".toList → last n (settings flags) ≠ none

/-- When bindgen sees `n` as the core does. -/
def BindgenAgrees (wasm : Bool) (flags own : List Str) (n : Str) : Prop :=
  match last n (settings own) with
  | none => BindgenMatches wasm flags n
  | some b => seen (BINDGEN_ARGS ++ forcedFlags ++ flags) n = b

theorem last_core {t : Tools} {own : List Str} (hcore : t.CompilesCore own) {sdk : Option Path}
    {dst : Path} {flags : List Str} (hdst : t.cmake (coreConfig sdk) = some dst)
    (hflags : extractCDefines t.os t.split (dst.join "build".toList) = .ok (some flags)) (n : Str) :
    last n (settings (t.core (coreConfig sdk))) =
      (last n (settings own)).or ((last n (settings (wasmFlags sdk.isSome))).or
        ((last n (settings forcedFlags)).or (last n (settings flags)))) := by
  have hcflags : settings (coreConfig sdk).cflags =
      settings forcedFlags ++ settings (wasmFlags sdk.isSome) := by
    rw [← Preproc.settings_append]
    cases sdk <;> rfl
  rw [hcore _ _ _ hdst hflags, Preproc.settings_append, Preproc.settings_append, hcflags]
  simp only [Preproc.last_append, Option.or_assoc]

theorem settings_sioBuild (msvc : Bool) (buildDir : Path) (flags : List Str) :
    settings (sioBuild msvc buildDir flags).args = settings forcedFlags ++ settings flags := by
  rw [← Preproc.settings_append, CcBuild.args, sioBuild, List.map_nil, List.append_nil]
  cases msvc <;> rfl

/-- The names set for a core for wasm32, each once. -/
theorem wasmFlags_once (wasm : Bool) : ((settings (wasmFlags wasm)).map Prod.fst).Nodup := by
  cases wasm <;> decide

theorem wasmFlags_defined (wasm : Bool) : ∀ x ∈ settings (wasmFlags wasm), x.2 ≠ none := by
  cases wasm <;> decide

/-- The shims get the same defines as the core for wasm32, in another order. -/
theorem settings_shimBuild (sdk buildDir : Path) (flags : List Str) :
    ∃ defines, (settings (wasmFlags true)).Perm defines ∧
      settings (shimBuild sdk buildDir flags).args =
        settings forcedFlags ++ settings flags ++ defines := by
  refine ⟨settings ["-D_GNU_SOURCE".toList, "-DPATH_MAX=4096".toList,
    "-D_WASI_EMULATED_SIGNAL".toList, "-DNDEBUG".toList, "-DENABLE_VFS_FILE".toList], by decide, ?_⟩
  rw [← Preproc.settings_append, ← Preproc.settings_append]
  rfl

theorem settings_bindgenJob (sdk : Option Path) (flags : List Str) :
    settings (bindgenJob sdk flags).clangArgs =
      settings BINDGEN_ARGS ++ settings forcedFlags ++ settings flags := by
  rw [← Preproc.settings_append, ← Preproc.settings_append]
  cases sdk <;> rfl

theorem forced_apart_wasm (wasm : Bool) (n : Str) :
    last n (settings forcedFlags) = none ∨ last n (settings (wasmFlags wasm)) = none := by
  refine Preproc.last_apart ?_ n
  cases wasm <;> decide

theorem bindgen_apart (wasm : Bool) (n : Str) :
    last n (settings BINDGEN_ARGS) = none ∨
      last n (settings forcedFlags ++ settings (wasmFlags wasm)) = none := by
  refine Preproc.last_apart ?_ n
  cases wasm <;> decide

theorem threads_iff (n : Str) :
    last n (settings BINDGEN_ARGS) ≠ none ↔ n = "__STDC_NO_THREADS__".toList := by
  have hsettings : settings BINDGEN_ARGS =
    [("__STDC_NO_THREADS__".toList, some "1".toList)] := by decide
  rw [hsettings, last, last, Option.none_or]
  constructor
  · intro h
    by_contra hne
    exact h (if_neg (Ne.symm hne))
  · rintro rfl
    rw [if_pos rfl]
    exact Option.some_ne_none _

/-- Every one of these arguments defines its name. -/
theorem defined_of_last {args : List Str} (all : ∀ x ∈ settings args, x.2 ≠ none) {n : Str}
    {b : Option Str} (h : last n (settings args) = some b) : b ≠ none :=
  all _ (Preproc.mem_of_last h)

theorem last_besideBuild (env : Env) (sdk : Option Path) (buildDir : Path) (flags : List Str)
    (n : Str) :
    last n (settings (besideBuild env sdk buildDir flags).args) =
      (last n (settings (wasmFlags sdk.isSome))).or
        ((last n (settings flags)).or (last n (settings forcedFlags))) := by
  cases sdk with
  | none =>
      rw [besideBuild, settings_sioBuild, Preproc.last_append]
      rfl
  | some p =>
      obtain ⟨defines, hperm, hsettings⟩ := settings_shimBuild p buildDir flags
      rw [besideBuild, hsettings, Preproc.last_append, Preproc.last_append,
        ← Preproc.last_perm hperm (wasmFlags_once true) n]
      rfl

/-- Where cmake's own flags are silent, a macro looks beside the core as it
does in the core exactly when cmake's defines leave the forced ones alone. -/
theorem beside_matches_iff (wasm : Bool) (flags : List Str) (n : Str) :
    ((last n (settings (wasmFlags wasm))).or
        ((last n (settings flags)).or (last n (settings forcedFlags)))).join =
      ((last n (settings (wasmFlags wasm))).or
        ((last n (settings forcedFlags)).or (last n (settings flags)))).join ↔
      Agree n (settings forcedFlags) (settings flags) := by
  have hapart := forced_apart_wasm wasm n
  rw [Agree]
  generalize last n (settings flags) = g
  generalize last n (settings forcedFlags) = f at hapart ⊢
  generalize last n (settings (wasmFlags wasm)) = w at hapart ⊢
  rcases hapart with rfl | rfl
  · cases w <;> cases g <;> simp
  · cases f <;> cases g <;> simp [eq_comm]

/-- Where cmake's own flags are silent, a macro looks in the bindings as it
does in the core exactly when cmake's defines leave the forced ones alone and
make up for what only one side is given. -/
theorem bindgen_matches_iff (wasm : Bool) (flags : List Str) (n : Str) :
    ((last n (settings flags)).or
        ((last n (settings forcedFlags)).or (last n (settings BINDGEN_ARGS)))).join =
      ((last n (settings (wasmFlags wasm))).or
        ((last n (settings forcedFlags)).or (last n (settings flags)))).join ↔
      BindgenMatches wasm flags n := by
  have hmatches : BindgenMatches wasm flags n ↔
      Agree n (settings forcedFlags) (settings flags) ∧
      (∀ b, last n (settings (wasmFlags wasm)) = some b → last n (settings flags) = some b) ∧
      (last n (settings BINDGEN_ARGS) ≠ none → last n (settings flags) ≠ none) := by
    rw [threads_iff]
    exact ⟨fun h => ⟨h.forced, h.wasm32, h.threads⟩, fun h => ⟨h.1, h.2.1, h.2.2⟩⟩
  have hapart := forced_apart_wasm wasm n
  have hapart' := bindgen_apart wasm n
  have hwasm : ∀ b, last n (settings (wasmFlags wasm)) = some b → b ≠ none :=
    fun b => defined_of_last (wasmFlags_defined wasm)
  have hbindgen : ∀ b, last n (settings BINDGEN_ARGS) = some b → b ≠ none :=
    fun b => defined_of_last (by decide)
  rw [hmatches, Agree]
  simp only [Preproc.last_append, Option.or_eq_none_iff] at hapart' ⊢
  generalize last n (settings flags) = g
  generalize last n (settings forcedFlags) = f at hapart hapart' ⊢
  generalize last n (settings (wasmFlags wasm)) = w at hapart hapart' hwasm ⊢
  generalize last n (settings BINDGEN_ARGS) = t at hapart' hbindgen ⊢
  -- at most one of the three groups sets the name
  rcases hapart' with rfl | ⟨rfl, rfl⟩
  · rcases hapart with rfl | rfl
    · cases w <;> cases g <;> simp_all [eq_comm]
    · cases f <;> cases g <;> simp [eq_comm]
  · cases t <;> cases g <;> simp_all [eq_comm]

section Core

variable {t : Tools} {own flags : List Str} {sdk : Option Path} {dst : Path}

theorem beside_agrees_iff (hcore : t.CompilesCore own)
    (hdst : t.cmake (coreConfig sdk) = some dst)
    (hflags : extractCDefines t.os t.split (dst.join "build".toList) = .ok (some flags))
    (env : Env) (buildDir : Path) (n : Str) :
    seen (besideBuild env sdk buildDir flags).args n = seen (t.core (coreConfig sdk)) n ↔
      BesideAgrees sdk.isSome flags own n := by
  rw [seen, seen, last_besideBuild, last_core hcore hdst hflags, BesideAgrees]
  cases last n (settings own) with
  | none =>
      rw [Option.none_or]
      exact beside_matches_iff sdk.isSome flags n
  | some b =>
      rw [Option.some_or, Option.join_some, seen, Preproc.settings_append,
        Preproc.settings_append, Preproc.last_append, Preproc.last_append]

theorem bindgen_agrees_iff (hcore : t.CompilesCore own)
    (hdst : t.cmake (coreConfig sdk) = some dst)
    (hflags : extractCDefines t.os t.split (dst.join "build".toList) = .ok (some flags))
    (n : Str) :
    seen (bindgenJob sdk flags).clangArgs n = seen (t.core (coreConfig sdk)) n ↔
      BindgenAgrees sdk.isSome flags own n := by
  rw [seen, seen, settings_bindgenJob, Preproc.last_append, Preproc.last_append,
    last_core hcore hdst hflags, BindgenAgrees]
  cases last n (settings own) with
  | none =>
      rw [Option.none_or]
      exact bindgen_matches_iff sdk.isSome flags n
  | some b =>
      rw [Option.some_or, Option.join_some, seen, Preproc.settings_append,
        Preproc.settings_append, Preproc.last_append, Preproc.last_append]

end Core

/-! ## Every run -/

def forWasm (env : Env) : Bool :=
  env "CARGO_CFG_TARGET_ARCH".toList == some "wasm32".toList

/-- **Link order.** Natively the drivers come before the core they refer to
and the system libraries after both; for wasm32 the shims come after the core
and before libc. -/
theorem main_linkLibs {env : Env} {t : Tools} {actions : List Action}
    (h : main env t = .ok actions) :
    ∃ targetOs sdk, env "CARGO_CFG_TARGET_OS".toList = some targetOs ∧
      (sdk.isSome = true ↔ env "CARGO_CFG_TARGET_ARCH".toList = some "wasm32".toList) ∧
      actions.filterMap Action.lib? = linkOrder targetOs t.os sdk := by
  obtain ⟨sdk, buildDir, flags, hran⟩ := main_ran h
  obtain ⟨targetOs, hos, hlibs⟩ := hran.libs
  exact ⟨targetOs, sdk, hos, hran.arch, hlibs⟩

section Sample

/-- A Linux host, and tools that succeed: cmake builds a release of a core
with two defines of its own. -/
def sampleEnv : Env := fun name =>
  [("CARGO_CFG_TARGET_OS".toList, "linux".toList), ("CARGO_CFG_TARGET_ARCH".toList, "x86".toList),
    ("OUT_DIR".toList, "/o".toList)].lookup name

def releaseFlags : List Str := ["-O3".toList, "-DNDEBUG".toList]

def sampleTools : Tools where
  cmake _ := some []
  core cfg := ["-DA".toList, "-DB=1".toList] ++ cfg.cflags ++ releaseFlags
  os := Os.ofFiles [(flagsMakePath ["build".toList], sampleFlagsMake)]
  split text := some (shellWords text)
  compile _ := true
  generate _ := true
  write _ := true
  append _ := true

theorem sampleTools_extract {flags : List Str}
    (h : extractCDefines sampleTools.os sampleTools.split ["build".toList] = .ok (some flags)) :
    flags = ["-DA".toList, "-DB=1".toList] := by
  have hextract : extractCDefines sampleTools.os sampleTools.split ["build".toList] =
      .ok (some ["-DA".toList, "-DB=1".toList]) := by decide
  cases h.symm.trans hextract
  rfl

theorem sampleTools_compilesCore : sampleTools.CompilesCore releaseFlags := by
  intro cfg dst flags hdst hflags
  cases hdst
  rw [sampleTools_extract hflags]
  rfl

end Sample

end MgbaRs
