import Mathlib.Data.List.Basic
import Mathlib.Data.Nat.Find

/-!
# Lists addressed by offset

When the elements of a list take up room (`w x` units each, at least one),
positions in it are offsets: `extent` measures a list, `splitAt?` cuts it at
an offset and refuses one that is out of range or inside an element, and
`find?` is the offset of the first occurrence of a pattern.

`First pat xs a b` says that `pat` first occurs in `xs` between `a` and `b`.
A pattern whose head does not come back in its tail cannot overlap itself, so
its first occurrence is any that has none before it (`First.of_unbordered`).
-/

namespace Offset

variable {α : Type*}

/-! ## First occurrences -/

structure First (pat xs a b : List α) : Prop where
  split : xs = a ++ pat ++ b
  least : ∀ a' b', xs = a' ++ pat ++ b' → a.length ≤ a'.length

/-- A first occurrence is there and there is only one. -/
theorem First.unique {pat xs a b a' b' : List α} (h : First pat xs a b)
    (h' : First pat xs a' b') : a = a' ∧ b = b' := by
  have hlength : a.length = a'.length :=
    Nat.le_antisymm (h.least a' b' h'.split) (h'.least a b h.split)
  have hsplit : a ++ (pat ++ b) = a' ++ (pat ++ b') := by
    rw [← List.append_assoc, ← List.append_assoc, ← h.split, h'.split]
  obtain ⟨ha, hb⟩ := List.append_inj hsplit hlength
  exact ⟨ha, List.append_cancel_left hb⟩

/-- What follows any occurrence follows the first one. -/
theorem First.suffix {pat xs a b a' b' : List α} (h : First pat xs a b)
    (h' : xs = a' ++ pat ++ b') : b' <:+ b := by
  have hb : b <:+ xs := ⟨a ++ pat, h.split.symm⟩
  have hb' : b' <:+ xs := ⟨a' ++ pat, h'.symm⟩
  refine List.suffix_of_suffix_length_le hb' hb ?_
  have hlength := congrArg List.length (h.split.symm.trans h')
  have hleast := h.least a' b' h'
  simp only [List.length_append] at hlength
  omega

/-- Where a pattern occurs at all, it has a first occurrence. -/
theorem First.exists_of_infix {pat xs : List α} (h : pat <:+: xs) :
    ∃ a b, First pat xs a b := by
  classical
  have hsome : ∃ n, ∃ a b, xs = a ++ pat ++ b ∧ a.length = n := by
    obtain ⟨a, b, hab⟩ := h
    exact ⟨a.length, a, b, hab.symm, rfl⟩
  obtain ⟨a, b, hab, hn⟩ := Nat.find_spec hsome
  refine ⟨a, b, hab, fun a' b' hab' => ?_⟩
  rw [hn]
  exact Nat.find_min' hsome ⟨a', b', hab', rfl⟩

theorem First.of_unbordered {p : α} {ps a b : List α} (hp : p ∉ ps)
    (ha : ¬ (p :: ps) <:+: a) : First (p :: ps) (a ++ (p :: ps) ++ b) a b := by
  refine ⟨rfl, fun a' b' hab => ?_⟩
  by_contra hlt
  rw [Nat.not_le] at hlt
  rw [List.append_assoc, List.append_assoc] at hab
  -- an earlier occurrence starts inside `a`; it ends there too, or it reaches
  -- into the pattern and has its head once more in its tail
  obtain ⟨c, rfl, hc⟩ | ⟨c, rfl, hc⟩ := List.append_eq_append_iff.mp hab
  · simp only [List.length_append] at hlt
    omega
  · obtain ⟨d, hd, -⟩ | ⟨d, hd, hd'⟩ := List.append_eq_append_iff.mp hc
    · exact ha ⟨a', d, by rw [hd, List.append_assoc]⟩
    · cases c with
      | nil => simp at hlt
      | cons q c =>
          rw [List.cons_append, List.cons.injEq] at hd
          cases d with
          | nil =>
              rw [List.append_nil] at hd
              exact ha ⟨a', [], by rw [List.append_nil, hd.1, hd.2]⟩
          | cons r d =>
              rw [List.cons_append, List.cons_append, List.cons.injEq] at hd'
              apply hp
              rw [hd.2, hd'.1]
              exact List.mem_append_right c List.mem_cons_self

/-! ## Offsets -/

section Sized

variable (w : α → Nat)

/-- The room a list takes up. -/
def extent : List α → Nat
  | [] => 0
  | x :: xs => w x + extent xs

@[simp] theorem extent_nil : extent w [] = 0 := rfl

@[simp] theorem extent_cons (x : α) (xs : List α) :
    extent w (x :: xs) = w x + extent w xs := rfl

@[simp] theorem extent_append (xs ys : List α) :
    extent w (xs ++ ys) = extent w xs + extent w ys := by
  induction xs with
  | nil => rw [List.nil_append, extent_nil, Nat.zero_add]
  | cons x xs ih => rw [List.cons_append, extent_cons, extent_cons, ih, Nat.add_assoc]

/-- Cut at offset `n`: what lies before it and what lies after it. -/
def splitAt? : Nat → List α → Option (List α × List α)
  | 0, xs => some ([], xs)
  | _ + 1, [] => none
  | n + 1, x :: xs =>
      if w x ≤ n + 1 then (splitAt? (n + 1 - w x) xs).map fun (a, b) => (x :: a, b)
      else none

theorem eq_of_splitAt? {n : Nat} {xs a b : List α} (h : splitAt? w n xs = some (a, b)) :
    xs = a ++ b ∧ extent w a = n := by
  induction xs generalizing n a with
  | nil =>
      cases n with
      | zero => cases h; exact ⟨rfl, rfl⟩
      | succ n => cases h
  | cons x xs ih =>
      cases n with
      | zero => cases h; exact ⟨rfl, rfl⟩
      | succ n =>
          rw [splitAt?] at h
          split at h
          · rename_i hle
            obtain ⟨⟨c, d⟩, hcd, hpair⟩ := Option.map_eq_some_iff.mp h
            cases hpair
            obtain ⟨hsplit, hextent⟩ := ih hcd
            refine ⟨by rw [hsplit, List.cons_append], ?_⟩
            rw [extent_cons, hextent]
            omega
          · cases h

variable {w} (pos : ∀ x, 0 < w x)
include pos

theorem splitAt?_append (a b : List α) : splitAt? w (extent w a) (a ++ b) = some (a, b) := by
  induction a with
  | nil => rw [extent_nil, List.nil_append, splitAt?]
  | cons x a ih =>
      have hx := pos x
      have hextent := extent_cons w x a
      cases hn : extent w (x :: a) with
      | zero => omega
      | succ n =>
          rw [List.cons_append, splitAt?, if_pos (by omega),
            show n + 1 - w x = extent w a by omega, ih]
          rfl

end Sized

/-! ## Search -/

section Search

variable [DecidableEq α] (w : α → Nat)

/-- The offset of the first occurrence of `pat`. -/
def find? (pat xs : List α) : Option Nat :=
  (xs.dropInfix? pat).map fun (a, _) => extent w a

theorem dropInfix?_eq_some_iff_first {pat xs a b : List α} :
    xs.dropInfix? pat = some (a, b) ↔ First pat xs a b := by
  rw [List.dropInfix?_eq_some_iff]
  constructor
  · rintro ⟨⟨p, hp, heq⟩, hleast⟩
    rw [beq_iff_eq] at heq
    subst heq
    exact ⟨hp, fun a' b' h => hleast a' _ b' h (beq_self_eq_true _)⟩
  · rintro ⟨hsplit, hleast⟩
    refine ⟨⟨pat, hsplit, beq_self_eq_true _⟩, fun a' p b' h heq => ?_⟩
    rw [beq_iff_eq] at heq
    subst heq
    exact hleast a' b' h

variable {w}

theorem find?_of_first {pat xs a b : List α} (h : First pat xs a b) :
    find? w pat xs = some (extent w a) := by
  rw [find?, dropInfix?_eq_some_iff_first.mpr h]
  rfl

theorem first_of_find? {pat xs : List α} {n : Nat} (h : find? w pat xs = some n) :
    ∃ a b, First pat xs a b ∧ extent w a = n := by
  obtain ⟨⟨a, b⟩, hab, hn⟩ := Option.map_eq_some_iff.mp h
  exact ⟨a, b, dropInfix?_eq_some_iff_first.mp hab, hn⟩

theorem find?_eq_none_iff {pat xs : List α} : find? w pat xs = none ↔ ¬ pat <:+: xs := by
  constructor
  · intro hnone hwithin
    obtain ⟨a, b, hfirst⟩ := First.exists_of_infix hwithin
    rw [find?_of_first hfirst] at hnone
    cases hnone
  · intro hwithin
    cases hfind : find? w pat xs with
    | none => rfl
    | some n =>
        obtain ⟨a, b, hfirst, -⟩ := first_of_find? hfind
        exact absurd ⟨a, b, hfirst.split.symm⟩ hwithin

end Search

end Offset
