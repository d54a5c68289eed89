import Mathlib.Logic.Relation
import Mathlib.Logic.Function.Basic

/-!
# Allocated blocks and the pointers between them

A heap says which blocks are allocated and where the pointers stored in them
lead. Programs are lists of operations, among them `enter b`: control goes to
code that may follow any pointer it finds from `b` on.

`Sound weak` is the invariant: no allocated block points to one that is not,
but for pointers in `weak` fields, which may outlive what they lead to.
Allocating and storing keep it under conditions on the operation alone;
freeing keeps it exactly when no field that is not weak leads from outside
into the freed blocks (`sound_frees_iff`). Entering code is safe from within a
set of allocated blocks that no pointer leaves, weak or not
(`ok_enter_of_closed`).
-/

/-- Which blocks are allocated, and what the pointers in them are. -/
structure Heap (ι κ : Type*) where
  live : ι → Bool
  ref : ι → κ → Option ι

namespace Heap

variable {ι κ : Type*}

def empty : Heap ι κ where
  live _ := false
  ref _ _ := none

/-- No allocated block points to a block that is not, but for its weak fields. -/
def Sound (weak : κ → Prop) (h : Heap ι κ) : Prop :=
  ∀ b k c, ¬ weak k → h.live b = true → h.ref b k = some c → h.live c = true

/-- Following pointers from `b` leads to `c`. -/
def Reaches (h : Heap ι κ) : ι → ι → Prop :=
  Relation.ReflTransGen fun b c => ∃ k, h.ref b k = some c

/-- Every pointer in the heap is of the kind its field is for. -/
def Typed (K : ι → κ → ι → Prop) (h : Heap ι κ) : Prop :=
  ∀ b k c, h.ref b k = some c → K b k c

theorem sound_empty (weak : κ → Prop) : (empty : Heap ι κ).Sound weak := by
  intro b k c _ hb
  cases hb

theorem typed_empty (K : ι → κ → ι → Prop) : (empty : Heap ι κ).Typed K := by
  intro b k c hc
  cases hc

/-- A block only one pointer ever led to, which leads elsewhere now. -/
theorem unreferenced {h : Heap ι κ} {b c c' : ι} {k : κ}
    (honly : ∀ b' k', h.ref b' k' = some c → b' = b ∧ k' = k)
    (hk : h.ref b k = some c') (hne : c' ≠ c) (b' : ι) (k' : κ) : h.ref b' k' ≠ some c := by
  intro hc
  obtain ⟨rfl, rfl⟩ := honly b' k' hc
  rw [hk] at hc
  exact hne (Option.some.inj hc)

/-! ## Operations -/

inductive Op (ι κ : Type*) where
  /-- A block, with null pointers. -/
  | alloc (b : ι)
  | free (b : ι)
  | store (b : ι) (k : κ) (p : Option ι)
  /-- Code that may follow any pointer from `b` on. -/
  | enter (b : ι)
deriving DecidableEq, Repr

/-- The operation finds what it needs: a block can be allocated once and
freed once, only allocated blocks are written to, and code that is entered
finds nothing freed. -/
def Ok (h : Heap ι κ) : Op ι κ → Prop
  | .alloc b => h.live b = false
  | .free b => h.live b = true
  | .store b _ p => h.live b = true ∧ ∀ c, p = some c → h.live c = true
  | .enter b => ∀ c, h.Reaches b c → h.live c = true

/-- The operation stores pointers of the right kind only. -/
def Op.Typed (K : ι → κ → ι → Prop) : Op ι κ → Prop
  | .store b k p => ∀ c, p = some c → K b k c
  | _ => True

variable [DecidableEq ι] [DecidableEq κ]

def apply (h : Heap ι κ) : Op ι κ → Heap ι κ
  | .alloc b =>
      { live := Function.update h.live b true, ref := Function.update h.ref b fun _ => none }
  | .free b => { h with live := Function.update h.live b false }
  | .store b k p => { h with ref := Function.update h.ref b (Function.update (h.ref b) k p) }
  | .enter _ => h

/-- Carry out a program. -/
def exec (h : Heap ι κ) (ops : List (Op ι κ)) : Heap ι κ := ops.foldl apply h

/-- Every operation of the program finds what it needs when its turn comes. -/
def Fine : Heap ι κ → List (Op ι κ) → Prop
  | _, [] => True
  | h, op :: ops => h.Ok op ∧ Fine (h.apply op) ops

@[simp] theorem exec_nil (h : Heap ι κ) : h.exec [] = h := rfl

@[simp] theorem exec_cons (h : Heap ι κ) (op : Op ι κ) (ops : List (Op ι κ)) :
    h.exec (op :: ops) = (h.apply op).exec ops := rfl

theorem exec_append (h : Heap ι κ) (ops ops' : List (Op ι κ)) :
    h.exec (ops ++ ops') = (h.exec ops).exec ops' := by
  unfold exec
  rw [List.foldl_append]

theorem fine_append {h : Heap ι κ} {ops ops' : List (Op ι κ)} :
    h.Fine (ops ++ ops') ↔ h.Fine ops ∧ (h.exec ops).Fine ops' := by
  induction ops generalizing h with
  | nil => simp [Fine]
  | cons op ops ih => simp [Fine, ih, and_assoc]

@[simp] theorem live_alloc (h : Heap ι κ) (b c : ι) :
    (h.apply (.alloc b)).live c = (decide (c = b) || h.live c) := by
  by_cases hc : c = b
  · subst hc
    simp [apply]
  · simp [apply, hc]

@[simp] theorem live_free (h : Heap ι κ) (b c : ι) :
    (h.apply (.free b)).live c = (!decide (c = b) && h.live c) := by
  by_cases hc : c = b
  · subst hc
    simp [apply]
  · simp [apply, hc]

@[simp] theorem live_store (h : Heap ι κ) (b : ι) (k : κ) (p : Option ι) :
    (h.apply (.store b k p)).live = h.live := rfl

@[simp] theorem apply_enter (h : Heap ι κ) (b : ι) : h.apply (.enter b) = h := rfl

@[simp] theorem ref_free (h : Heap ι κ) (b : ι) : (h.apply (.free b)).ref = h.ref := rfl

@[simp] theorem ref_alloc (h : Heap ι κ) (b c : ι) (k : κ) :
    (h.apply (.alloc b)).ref c k = if c = b then none else h.ref c k := by
  by_cases hc : c = b
  · subst hc
    simp [apply]
  · simp [apply, hc]

@[simp] theorem ref_store (h : Heap ι κ) (b c : ι) (k l : κ) (p : Option ι) :
    (h.apply (.store b k p)).ref c l = if c = b ∧ l = k then p else h.ref c l := by
  by_cases hc : c = b
  · subst hc
    by_cases hl : l = k
    · subst hl
      simp [apply]
    · simp [apply, hl]
  · simp [apply, hc]

/-! ## Entering code -/

omit [DecidableEq ι] [DecidableEq κ] in
/-- Code entered in a set of allocated blocks that no pointer leaves finds
nothing that is gone. -/
theorem ok_enter_of_closed {h : Heap ι κ} {P : ι → Prop} {b : ι}
    (hlive : ∀ c, P c → h.live c = true) (hclosed : ∀ c k d, P c → h.ref c k = some d → P d)
    (hb : P b) : h.Ok (.enter b) := by
  intro c hc
  refine hlive c ?_
  induction hc with
  | refl => exact hb
  | tail _ hstep ih =>
      obtain ⟨k, hk⟩ := hstep
      exact hclosed _ k _ ih hk

omit [DecidableEq ι] [DecidableEq κ] in
/-- Code entered at a block whose pointers lead to blocks without any finds
those, and nothing else. -/
theorem ok_enter_iff {h : Heap ι κ} {b : ι}
    (leaves : ∀ k c, h.ref b k = some c → ∀ l, h.ref c l = none) :
    h.Ok (.enter b) ↔ h.live b = true ∧ ∀ k c, h.ref b k = some c → h.live c = true := by
  constructor
  · intro hok
    refine ⟨hok b .refl, ?_⟩
    intro k c hc
    exact hok c (.single ⟨k, hc⟩)
  · rintro ⟨hb, hnext⟩ c hc
    -- two steps lead nowhere
    rcases hc.cases_head with rfl | ⟨d, ⟨k, hd⟩, hrest⟩
    · exact hb
    · rcases hrest.cases_head with rfl | ⟨d', ⟨l, hd'⟩, -⟩
      · exact hnext k _ hd
      · rw [leaves k d hd l] at hd'
        cases hd'

omit [DecidableEq ι] [DecidableEq κ] in
theorem ok_enter_leaf {h : Heap ι κ} {b : ι} (leaf : ∀ k, h.ref b k = none)
    (hb : h.live b = true) : h.Ok (.enter b) := by
  have hno : ∀ {k c}, h.ref b k ≠ some c := by
    intro k c hc
    rw [leaf k] at hc
    cases hc
  exact (ok_enter_iff fun k c hc => absurd hc hno).mpr ⟨hb, fun k c hc => absurd hc hno⟩

/-! ## What keeps the invariant -/

variable {weak : κ → Prop} {h : Heap ι κ}

/-- A new block points nowhere, and nobody pointed to it. -/
theorem Sound.alloc (hs : h.Sound weak) (b : ι) : (h.apply (.alloc b)).Sound weak := by
  intro c k d hk hc hd
  rw [ref_alloc] at hd
  split at hd
  · cases hd
  · rename_i hne
    have hlive : h.live c = true := by simpa [hne] using hc
    simp [hs c k d hk hlive hd]

theorem Sound.store (hs : h.Sound weak) {b : ι} {k : κ} {p : Option ι}
    (hp : ∀ c, p = some c → h.live c = true) : (h.apply (.store b k p)).Sound weak := by
  intro c l d hl hc hd
  rw [ref_store] at hd
  rw [live_store] at hc ⊢
  split at hd
  · exact hp d hd
  · exact hs c l d hl hc hd

theorem Typed.apply {K : ι → κ → ι → Prop} (ht : h.Typed K) {op : Op ι κ} (hop : op.Typed K) :
    (h.apply op).Typed K := by
  intro b k c hc
  cases op with
  | alloc b' =>
      rw [ref_alloc] at hc
      split at hc
      · cases hc
      · exact ht b k c hc
  | free b' => exact ht b k c hc
  | store b' k' p =>
      rw [ref_store] at hc
      split at hc
      · rename_i heq
        rw [heq.1, heq.2]
        exact hop c hc
      · exact ht b k c hc
  | enter b' => exact ht b k c hc

theorem Typed.exec {K : ι → κ → ι → Prop} {ops : List (Op ι κ)} (ht : h.Typed K)
    (hops : ∀ op ∈ ops, op.Typed K) : (h.exec ops).Typed K := by
  induction ops generalizing h with
  | nil => exact ht
  | cons op ops ih =>
      exact ih (ht.apply (hops op List.mem_cons_self))
        (fun op' hop' => hops op' (List.mem_cons_of_mem _ hop'))

/-! ## Freeing -/

/-- Free the listed blocks, in order. -/
def frees (bs : List ι) : List (Op ι κ) := bs.map .free

theorem live_frees (bs : List ι) (c : ι) :
    (h.exec (frees bs)).live c = true ↔ c ∉ bs ∧ h.live c = true := by
  induction bs generalizing h with
  | nil => simp [frees]
  | cons b bs ih =>
      have hstep := ih (h := h.apply (.free b))
      rw [frees] at hstep
      simp only [frees, List.map_cons, exec_cons, hstep, live_free, List.mem_cons]
      by_cases hc : c = b <;> simp [hc]

theorem ref_frees (bs : List ι) : (h.exec (frees bs)).ref = h.ref := by
  induction bs generalizing h with
  | nil => rfl
  | cons b bs ih => exact (ih (h := h.apply (.free b))).trans (ref_free h b)

/-- Distinct allocated blocks can be freed. -/
theorem fine_frees {bs : List ι} (hnodup : bs.Nodup) (hbs : ∀ b ∈ bs, h.live b = true) :
    h.Fine (frees bs) := by
  induction bs generalizing h with
  | nil => trivial
  | cons b bs ih =>
      rw [List.nodup_cons] at hnodup
      refine ⟨hbs b List.mem_cons_self, ih hnodup.2 ?_⟩
      intro c hc
      have hne : c ≠ b := by
        intro heq
        exact hnodup.1 (heq ▸ hc)
      simp [hne, hbs c (List.mem_cons_of_mem _ hc)]

/-- Freeing keeps the invariant exactly when no block that stays points to
one that goes, but for its weak fields. -/
theorem sound_frees_iff (hs : h.Sound weak) (bs : List ι) :
    (h.exec (frees bs)).Sound weak ↔
      ∀ b k c, ¬ weak k → h.live b = true → b ∉ bs → c ∈ bs → h.ref b k ≠ some c := by
  constructor
  · intro h' b k c hk hb hstay hgo hc
    rw [← ref_frees (h := h) bs] at hc
    have hfreed := h' b k c hk ((live_frees bs b).mpr ⟨hstay, hb⟩) hc
    exact ((live_frees bs c).mp hfreed).1 hgo
  · intro h' b k c hk hb hc
    rw [ref_frees] at hc
    rw [live_frees] at hb ⊢
    exact ⟨fun hgo => h' b k c hk hb.2 hb.1 hgo hc, hs b k c hk hb.2 hc⟩

/-! ## Programs that only store -/

/-- A program of stores between allocated blocks. -/
def Stores (h : Heap ι κ) (ops : List (Op ι κ)) : Prop :=
  ∀ op ∈ ops, ∃ b k p, op = .store b k p ∧ h.live b = true ∧ ∀ c, p = some c → h.live c = true

/-- It finds all it needs, allocates and frees nothing, and keeps the
invariant. -/
theorem Sound.stores {ops : List (Op ι κ)} (hs : h.Sound weak) (hops : h.Stores ops) :
    h.Fine ops ∧ (h.exec ops).live = h.live ∧ (h.exec ops).Sound weak := by
  induction ops generalizing h with
  | nil => exact ⟨trivial, rfl, hs⟩
  | cons op ops ih =>
      obtain ⟨b, k, p, rfl, hb, hp⟩ := hops op List.mem_cons_self
      obtain ⟨hfine, hlive, hs'⟩ := ih (hs.store hp) fun op' hop' =>
        hops op' (List.mem_cons_of_mem _ hop')
      exact ⟨⟨⟨hb, hp⟩, hfine⟩, hlive, hs'⟩

/-- What a field holds in the end it held before, or was stored there. -/
theorem ref_stores {ops : List (Op ι κ)} (hops : h.Stores ops) (b : ι) (k : κ) :
    (h.exec ops).ref b k = h.ref b k ∨ .store b k ((h.exec ops).ref b k) ∈ ops := by
  induction ops generalizing h with
  | nil => exact .inl rfl
  | cons op ops ih =>
      obtain ⟨b', k', p, rfl, -, -⟩ := hops op List.mem_cons_self
      have hrest : (h.apply (.store b' k' p)).Stores ops := fun op' hop' =>
        hops op' (List.mem_cons_of_mem _ hop')
      rcases ih hrest with hsame | hstored
      · rw [ref_store] at hsame
        rw [exec_cons, hsame]
        split
        · rename_i heq
          rw [heq.1, heq.2]
          exact .inr List.mem_cons_self
        · exact .inl rfl
      · exact .inr (List.mem_cons_of_mem _ hstored)

/-- A field nothing is stored in keeps what it holds. -/
theorem ref_stores_of_not {ops : List (Op ι κ)} (hops : h.Stores ops) {b : ι} {k : κ}
    (hno : ∀ p, Op.store b k p ∉ ops) : (h.exec ops).ref b k = h.ref b k :=
  (ref_stores hops b k).resolve_right (hno _)

/-- Calls change nothing. -/
theorem exec_enters {b : ι} {ops : List (Op ι κ)} (hops : ∀ op ∈ ops, op = .enter b) :
    h.exec ops = h := by
  induction ops with
  | nil => rfl
  | cons op ops ih =>
      rw [hops op List.mem_cons_self, exec_cons, apply_enter]
      exact ih fun op' hop' => hops op' (List.mem_cons_of_mem _ hop')

theorem fine_enters {b : ι} (hb : h.Ok (.enter b)) {ops : List (Op ι κ)}
    (hops : ∀ op ∈ ops, op = .enter b) : h.Fine ops := by
  induction ops with
  | nil => trivial
  | cons op ops ih =>
      rw [hops op List.mem_cons_self]
      exact ⟨hb, ih fun op' hop' => hops op' (List.mem_cons_of_mem _ hop')⟩

end Heap
