import MgbaRs.Rust.Str

/-!
# What the build script asks of the operating system

`mgba-sys/build.rs` reads two kinds of files and lists directories. Where the
script turns a `Result` into an `Option` at once (`.ok()?`), the model has
the `Option`.
-/

namespace MgbaRs

/-- `PathBuf`, by components. -/
abbrev Path := List Str

/-- `Path::join` of one component. -/
def Path.join (p : Path) (name : Str) : Path := p ++ [name]

/-- The calls on the file system. A directory lists the paths of its entries
in an order of its own, and reading an entry may fail. -/
structure Os where
  pathExists : Path → Bool
  readFile : Path → Option (List Byte)
  readDir : Path → Option (List (Option Path))

/-- A file system that holds these files. -/
def Os.ofFiles (files : List (Path × List Byte)) : Os where
  pathExists p := (files.lookup p).isSome
  readFile p := files.lookup p
  readDir _ := none

/-- How one round of a loop ends: it goes on, or the function returns. -/
inductive Flow (σ ρ : Type) where
  | next (s : σ)
  | ret (r : ρ)
deriving DecidableEq, Repr

end MgbaRs
