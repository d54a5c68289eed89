import Mathlib.Data.List.DropRight

/-!
# Fields in a line

Joining fields with a separator and taking them apart again, over any
alphabet with a predicate for separators or blanks:

* `strip` removes blanks at both ends (`stripped_iff`), `strip_word` is its
  inverse law;
* `stretches` are the maximal stretches without a separator, recovered from
  a joined line by `stretches_intercalate`.

Splitting at one separator is `List.splitOn` with `List.splitOn_intercalate`.
-/

namespace Fields

variable {α : Type*} {p : α → Bool}

/-! ## Blanks around a field -/

/-- The list without the blanks at its two ends. -/
def strip (p : α → Bool) (xs : List α) : List α := (xs.dropWhile p).rdropWhile p

theorem strip_blank {xs : List α} (h : ∀ x ∈ xs, p x = true) : strip p xs = [] := by
  rw [strip, List.dropWhile_eq_nil_iff.mpr h, List.rdropWhile_nil]

/-- Stripping the right end stops at the last element that is no blank. -/
theorem rdropWhile_append_cons {x : α} (hx : p x = false) (xs ys : List α) :
    (xs ++ x :: ys).rdropWhile p = xs ++ x :: ys.rdropWhile p := by
  induction ys using List.reverseRecOn with
  | nil => rw [List.rdropWhile_concat_neg _ _ _ (Bool.eq_false_iff.mp hx), List.rdropWhile_nil]
  | append_singleton ys y ih =>
      rw [← List.cons_append, ← List.append_assoc, List.rdropWhile_concat, List.rdropWhile_concat]
      cases hy : p y with
      | false => simp only [Bool.false_eq_true, if_false, List.append_assoc, List.cons_append]
      | true => simp only [if_true, ih]

/-- Stripping leaves what comes after the first element that is no blank. -/
theorem strip_of_head {lead : List α} {x : α} (hlead : ∀ y ∈ lead, p y = true)
    (hx : p x = false) (xs : List α) :
    strip p (lead ++ x :: xs) = x :: xs.rdropWhile p := by
  rw [strip, List.dropWhile_append_of_pos hlead,
    List.dropWhile_cons_of_neg (Bool.eq_false_iff.mp hx)]
  exact rdropWhile_append_cons hx [] xs

/-- `ys` is `xs` without the blanks around it. -/
structure Stripped (p : α → Bool) (xs ys : List α) : Prop where
  around : ∃ lead trail, xs = lead ++ ys ++ trail ∧ (∀ x ∈ lead, p x = true) ∧
    ∀ x ∈ trail, p x = true
  head : ∀ x ∈ ys.head?, p x = false
  last : ∀ x ∈ ys.getLast?, p x = false

theorem Stripped.eq {xs ys : List α} (h : Stripped p xs ys) : ys = strip p xs := by
  obtain ⟨⟨lead, trail, rfl, hlead, htrail⟩, hhead, hlast⟩ := h
  cases ys with
  | nil =>
      rw [List.append_nil]
      exact (strip_blank (List.forall_mem_append.mpr ⟨hlead, htrail⟩)).symm
  | cons x ys =>
      rw [List.append_assoc, List.cons_append, strip_of_head hlead (hhead x rfl)]
      cases ys using List.reverseRecOn with
      | nil => rw [List.nil_append, List.rdropWhile_eq_nil_iff.mpr htrail]
      | append_singleton ys y =>
          have hy : p y = false := hlast y (by rw [← List.cons_append]; exact List.getLast?_concat)
          rw [List.append_assoc, List.singleton_append, rdropWhile_append_cons hy,
            List.rdropWhile_eq_nil_iff.mpr htrail]

theorem stripped_strip (xs : List α) : Stripped p xs (strip p xs) := by
  have hlead : xs.takeWhile p ++ xs.dropWhile p = xs := List.takeWhile_append_dropWhile
  have htrail : strip p xs ++ (xs.dropWhile p).rtakeWhile p = xs.dropWhile p :=
    List.rdropWhile_append_rtakeWhile
  refine ⟨⟨xs.takeWhile p, (xs.dropWhile p).rtakeWhile p, ?_, ?_, ?_⟩, ?_, ?_⟩
  · rw [List.append_assoc, htrail, hlead]
  · exact fun x hx => List.mem_takeWhile_imp hx
  · exact fun x hx => List.mem_rtakeWhile_imp hx
  · -- the head is that of the list without its leading blanks
    intro x hx
    have hhead : (xs.dropWhile p).head? = some x := by
      rw [← htrail, List.head?_append, Option.mem_def.mp hx, Option.some_or]
    have hnot := List.head?_dropWhile_not p xs
    rw [hhead] at hnot
    exact Bool.eq_false_iff.mpr (by simpa using hnot)
  · intro x hx
    obtain ⟨hne, hlast⟩ := List.mem_getLast?_eq_getLast hx
    have hnot := List.rdropWhile_last_not p (xs.dropWhile p) hne
    rw [hlast]
    exact Bool.eq_false_iff.mpr hnot

theorem stripped_iff {xs ys : List α} : Stripped p xs ys ↔ ys = strip p xs :=
  ⟨Stripped.eq, fun h => h ▸ stripped_strip xs⟩

/-- A word without blanks survives the blanks around it. -/
theorem strip_word {lead word trail : List α} (hlead : ∀ x ∈ lead, p x = true)
    (htrail : ∀ x ∈ trail, p x = true) (hword : ∀ x ∈ word, p x = false) :
    strip p (lead ++ word ++ trail) = word := by
  have hstripped : Stripped p (lead ++ word ++ trail) word :=
    ⟨⟨lead, trail, rfl, hlead, htrail⟩, fun x hx => hword x (List.mem_of_mem_head? hx),
      fun x hx => hword x (List.mem_of_getLast? hx)⟩
  exact hstripped.eq.symm

/-! ## Joined fields -/

/-- What the separator and the fields all have, the joined line has. -/
theorem forall_mem_intercalate {P : α → Prop} {sep : α} {fields : List (List α)} (hsep : P sep)
    (hfields : ∀ field ∈ fields, ∀ x ∈ field, P x) : ∀ x ∈ [sep].intercalate fields, P x := by
  induction fields with
  | nil =>
      intro x hx
      cases hx
  | cons field fields ih =>
      obtain ⟨hfield, hrest⟩ := List.forall_mem_cons.mp hfields
      cases fields with
      | nil => simpa using hfield
      | cons next fields =>
          rw [List.intercalate_cons_cons, List.append_assoc, List.singleton_append,
            List.forall_mem_append, List.forall_mem_cons]
          exact ⟨hfield, hsep, ih hrest⟩

theorem splitOnP_intercalate {sep : α} {fields : List (List α)} (hsep : p sep = true)
    (hne : fields ≠ []) (hfields : ∀ field ∈ fields, ∀ x ∈ field, p x = false) :
    ([sep].intercalate fields).splitOnP p = fields := by
  induction fields with
  | nil => exact absurd rfl hne
  | cons field fields ih =>
      obtain ⟨hfield, hrest⟩ := List.forall_mem_cons.mp hfields
      cases fields with
      | nil =>
          rw [List.intercalate_singleton]
          exact List.splitOnP_eq_singleton hfield
      | cons next fields =>
          rw [List.intercalate_cons_cons, List.append_assoc, List.singleton_append,
            List.splitOnP_append_cons_of_forall_mem hfield sep hsep,
            ih (List.cons_ne_nil _ _) hrest]

/-- The maximal stretches without a separator. -/
def stretches (p : α → Bool) (xs : List α) : List (List α) :=
  (xs.splitOnP p).filter fun stretch => !stretch.isEmpty

theorem stretches_intercalate {sep : α} {fields : List (List α)} (hsep : p sep = true)
    (hne : fields ≠ []) (hnonempty : ∀ field ∈ fields, field ≠ [])
    (hfields : ∀ field ∈ fields, ∀ x ∈ field, p x = false) :
    stretches p ([sep].intercalate fields) = fields := by
  rw [stretches, splitOnP_intercalate hsep hne hfields, List.filter_eq_self]
  intro field hfield
  rw [Bool.not_eq_true', List.isEmpty_eq_false_iff]
  exact hnonempty field hfield

end Fields
