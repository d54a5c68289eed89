import Mathlib.Data.List.Nodup

/-!
# Macros on a compiler's command line

`-DNAME` defines `NAME` as `1`, `-DNAME=BODY` as `BODY`, and `-UNAME` takes a
definition away; of several arguments about a name the last one counts. `seen`
is what the compiled text sees of a name.

The first half is about settings of any kind of which the last one counts:
what two groups given one after the other come to (`last_append`), and that
the order inside a group does not matter as long as it sets each name once
(`last_perm`).
-/

namespace Preproc

section Settings

variable {ν β : Type*} [DecidableEq ν]

/-- The last setting of `n`. -/
def last (n : ν) : List (ν × β) → Option β
  | [] => none
  | (m, b) :: rest => (last n rest).or (if m = n then some b else none)

theorem last_append (n : ν) (xs ys : List (ν × β)) :
    last n (xs ++ ys) = (last n ys).or (last n xs) := by
  induction xs with
  | nil => simp [last]
  | cons x xs ih =>
      obtain ⟨m, b⟩ := x
      rw [List.cons_append, last, ih, last, Option.or_assoc]

theorem mem_of_last {n : ν} {b : β} {xs : List (ν × β)} (h : last n xs = some b) :
    (n, b) ∈ xs := by
  induction xs with
  | nil => cases h
  | cons x xs ih =>
      obtain ⟨m, c⟩ := x
      rw [last] at h
      cases hlast : last n xs with
      | some d =>
          rw [hlast, Option.some_or] at h
          exact List.mem_cons_of_mem _ (ih (hlast.trans h))
      | none =>
          rw [hlast, Option.none_or] at h
          split at h
          · rename_i hm
            cases h
            rw [hm]
            exact List.mem_cons_self
          · cases h

theorem last_ne_none {n : ν} {b : β} {xs : List (ν × β)} (h : (n, b) ∈ xs) :
    last n xs ≠ none := by
  induction xs with
  | nil => cases h
  | cons x xs ih =>
      obtain ⟨m, c⟩ := x
      rw [last, Ne, Option.or_eq_none_iff]
      rintro ⟨hrest, hhead⟩
      rcases List.mem_cons.mp h with heq | hmem
      · cases heq
        simp at hhead
      · exact ih hmem hrest

/-- In a group that sets each name once, the one setting is the last. -/
theorem last_eq_some_iff {n : ν} {b : β} {xs : List (ν × β)}
    (once : (xs.map Prod.fst).Nodup) : last n xs = some b ↔ (n, b) ∈ xs := by
  constructor
  · exact mem_of_last
  · intro hmem
    cases hlast : last n xs with
    | none => exact absurd hlast (last_ne_none hmem)
    | some c =>
        have hpair := List.inj_on_of_nodup_map once hmem (mem_of_last hlast) rfl
        cases hpair
        rfl

theorem last_perm {xs ys : List (ν × β)} (perm : xs.Perm ys) (once : (xs.map Prod.fst).Nodup)
    (n : ν) : last n xs = last n ys := by
  have once' : (ys.map Prod.fst).Nodup := (perm.map Prod.fst).nodup_iff.mp once
  apply Option.ext
  intro b
  rw [last_eq_some_iff once, last_eq_some_iff once', perm.mem_iff]

/-- Groups without a common name never both set `n`. -/
theorem last_apart {xs ys : List (ν × β)} (apart : ∀ x ∈ xs, ∀ y ∈ ys, x.1 ≠ y.1) (n : ν) :
    last n xs = none ∨ last n ys = none := by
  cases hx : last n xs with
  | none => exact .inl rfl
  | some b =>
      cases hy : last n ys with
      | none => exact .inr rfl
      | some c => exact (apart _ (mem_of_last hx) _ (mem_of_last hy) rfl).elim

/-- Two groups that give `n` the same setting if both set it. -/
def Agree (n : ν) (xs ys : List (ν × β)) : Prop :=
  ∀ b c, last n xs = some b → last n ys = some c → b = c

end Settings

/-! ## Arguments -/

/-- What follows `-D`: the name, and the body or `1`. -/
def define (arg : List Char) : List Char × List Char :=
  (arg.takeWhile (· ≠ '='),
    match arg.dropWhile (· ≠ '=') with
    | [] => ['1']
    | _ :: body => body)

/-- What an argument sets a name to; nothing for `-U`. Arguments of other
kinds set nothing. -/
def setting? : List Char → Option (List Char × Option (List Char))
  | '-' :: 'D' :: arg => some ((define arg).1, some (define arg).2)
  | '-' :: 'U' :: arg => some (arg, none)
  | _ => none

def settings (args : List (List Char)) : List (List Char × Option (List Char)) :=
  args.filterMap setting?

/-- The macro `n` as the compiled text sees it. -/
def seen (args : List (List Char)) (n : List Char) : Option (List Char) :=
  (last n (settings args)).join

theorem settings_append (xs ys : List (List Char)) :
    settings (xs ++ ys) = settings xs ++ settings ys := List.filterMap_append

end Preproc
