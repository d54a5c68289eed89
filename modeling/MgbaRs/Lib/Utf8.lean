import Mathlib.Data.List.Basic

/-!
# UTF-8 over byte lists

A text is a list of scalar values (`Char`), `encode` its bytes. Decoding
comes in two forms:

* **strict** (`decode?`): the text the bytes encode, or nothing;
* **lossy** (`decodeLossy`): total; each maximal ill-formed subpart, that is
  each longest stretch that begins a well-formed sequence but does not finish
  it, and at least one byte, becomes one U+FFFD.

Strict decoding is characterised by `decode?_eq_some_iff`, and a byte below
128 is in an encoding only as itself (`mem_encode_iff`). Lossy decoding
agrees with it wherever it succeeds (`decodeLossy_encode`). Of a text whose
bytes are cut off it gives the whole characters, and one U+FFFD for a
character that was cut (`decodeLossy_take`).
-/

namespace Utf8

/-- The bytes of a text. -/
def encode (cs : List Char) : List UInt8 := cs.flatMap String.utf8EncodeChar

@[simp] theorem encode_cons (c : Char) (cs : List Char) :
    encode (c :: cs) = String.utf8EncodeChar c ++ encode cs := rfl

/-! ## One character -/

/-- The character whose encoding the bytes begin with. -/
def first? (bs : List UInt8) : Option Char := bs.toByteArray.utf8DecodeChar? 0

theorem first?_append (c : Char) (rest : List UInt8) :
    first? (String.utf8EncodeChar c ++ rest) = some c := by
  rw [first?, List.toByteArray_append]
  exact ByteArray.utf8DecodeChar?_utf8EncodeChar_append

/-! ## Strict decoding -/

def decode? (bs : List UInt8) : Option (List Char) :=
  (String.fromUTF8? bs.toByteArray).map String.toList

theorem decode?_encode (cs : List Char) : decode? (encode cs) = some cs := by
  have hvalid : (encode cs).toByteArray.IsValidUTF8 := ⟨cs, rfl⟩
  have htext : String.fromUTF8 (encode cs).toByteArray hvalid = String.ofList cs := by
    rw [← String.toByteArray_inj, String.toByteArray_ofList]
    rfl
  rw [decode?, String.fromUTF8?, dif_pos hvalid, htext, Option.map_some, String.toList_ofList]

/-- Strict decoding succeeds exactly on the encoding of what it returns. -/
theorem decode?_eq_some_iff {bs : List UInt8} {cs : List Char} :
    decode? bs = some cs ↔ bs = encode cs := by
  constructor
  · intro h
    by_cases hvalid : bs.toByteArray.IsValidUTF8
    · obtain ⟨ds, hds⟩ := hvalid
      have hbs : bs = encode ds := List.toByteArray_inj.mp hds
      rw [hbs, decode?_encode, Option.some.injEq] at h
      rw [hbs, h]
    · rw [decode?, String.fromUTF8?, dif_neg hvalid] at h
      cases h
  · rintro rfl
    exact decode?_encode cs

theorem decode?_eq_none_iff {bs : List UInt8} :
    decode? bs = none ↔ ∀ cs, bs ≠ encode cs := by
  rw [Option.eq_none_iff_forall_ne_some]
  exact forall_congr' fun cs => not_congr decode?_eq_some_iff

/-- Bytes that do not begin with a character are not a text. -/
theorem decode?_eq_none_of_first? {b : UInt8} {bs : List UInt8} (h : first? (b :: bs) = none) :
    decode? (b :: bs) = none := by
  rw [decode?_eq_none_iff]
  intro cs hcs
  cases cs with
  | nil => cases hcs
  | cons c cs =>
      rw [hcs, encode_cons, first?_append] at h
      cases h

/-! ## Characters of one byte -/

/-- A byte below 128 is a character of its own wherever it is found. -/
theorem toNat_of_mem_encodeChar {c : Char} {b : UInt8} (hb : b.toNat < 0x80)
    (h : b ∈ String.utf8EncodeChar c) : c.toNat = b.toNat := by
  have hvalid : c.val.toNat < 0xD800 ∨ (0xDFFF < c.val.toNat ∧ c.val.toNat < 0x110000) := c.valid
  -- every other byte has its highest bit set
  have hhigh : ∀ n, 0x80 ≤ n → n < 256 → b ≠ UInt8.ofNat n := by
    rintro n hlow hn rfl
    rw [UInt8.toNat_ofNat_of_lt' hn] at hb
    omega
  unfold String.utf8EncodeChar at h
  simp only at h
  split at h
  · rename_i hsmall
    obtain rfl := List.mem_singleton.mp h
    exact (UInt8.toNat_ofNat_of_lt' (Nat.lt_of_le_of_lt hsmall (by decide))).symm
  · exfalso
    split at h
    · simp only [List.mem_cons, List.not_mem_nil, or_false] at h
      rcases h with h | h <;> exact hhigh _ (by omega) (by omega) h
    · split at h
      · simp only [List.mem_cons, List.not_mem_nil, or_false] at h
        rcases h with h | h | h <;> exact hhigh _ (by omega) (by omega) h
      · simp only [List.mem_cons, List.not_mem_nil, or_false] at h
        rcases h with h | h | h | h <;> exact hhigh _ (by omega) (by omega) h

theorem eq_of_mem_encodeChar {c d : Char} (hd : d.toNat < 0x80)
    (h : UInt8.ofNat d.toNat ∈ String.utf8EncodeChar c) : c = d := by
  have hbyte : (UInt8.ofNat d.toNat).toNat = d.toNat :=
    UInt8.toNat_ofNat_of_lt' (Nat.lt_trans hd (by decide))
  have hval := toNat_of_mem_encodeChar (by omega) h
  rw [hbyte] at hval
  exact Char.toNat_inj.mp hval

theorem encodeChar_ascii {d : Char} (hd : d.toNat < 0x80) :
    String.utf8EncodeChar d = [UInt8.ofNat d.toNat] := by
  have hsmall : d.val.toNat ≤ 127 := Nat.le_of_lt_succ hd
  unfold String.utf8EncodeChar
  simp only [if_pos hsmall]
  rfl

theorem mem_encode_iff {cs : List Char} {d : Char} (hd : d.toNat < 0x80) :
    UInt8.ofNat d.toNat ∈ encode cs ↔ d ∈ cs := by
  rw [encode, List.mem_flatMap]
  constructor
  · rintro ⟨c, hc, hmem⟩
    rwa [← eq_of_mem_encodeChar hd hmem]
  · intro hmem
    exact ⟨d, hmem, by rw [encodeChar_ascii hd]; exact List.mem_singleton_self _⟩

theorem encode_append (cs ds : List Char) : encode (cs ++ ds) = encode cs ++ encode ds :=
  List.flatMap_append

theorem getLast?_encode_iff {cs : List Char} {d : Char} (hd : d.toNat < 0x80) :
    (encode cs).getLast? = some (UInt8.ofNat d.toNat) ↔ cs.getLast? = some d := by
  rcases List.eq_nil_or_concat cs with rfl | ⟨cs, c, rfl⟩
  · simp [encode]
  · have hne : String.utf8EncodeChar c ≠ [] := by
      intro h
      have hlen := String.length_utf8EncodeChar c
      rw [h] at hlen
      exact absurd hlen (Nat.ne_of_lt c.utf8Size_pos)
    have hsingle : encode [c] = String.utf8EncodeChar c := by
      rw [encode_cons]
      exact List.append_nil _
    rw [List.concat_eq_append, encode_append, hsingle, List.getLast?_append_of_ne_nil _ hne,
      List.getLast?_concat, Option.some.injEq]
    constructor
    · intro h
      exact eq_of_mem_encodeChar hd (List.mem_of_getLast? h)
    · rintro rfl
      rw [encodeChar_ascii hd]
      rfl

/-! ## Lossy decoding -/

/-- The length of the sequence a lead byte announces; 0 for a byte that
leads none. -/
def width (lead : UInt8) : Nat :=
  if lead < 0x80 then 1
  else if lead < 0xC2 then 0
  else if lead < 0xE0 then 2
  else if lead < 0xF0 then 3
  else if lead < 0xF5 then 4
  else 0

def isContinuation (b : UInt8) : Bool := 0x80 ≤ b && b ≤ 0xBF

/-- The second bytes of well-formed sequences: the narrower ranges keep out
overlong forms, surrogates and values past U+10FFFF. -/
def isSecond (lead b : UInt8) : Bool :=
  if lead = 0xE0 then 0xA0 ≤ b && b ≤ 0xBF
  else if lead = 0xED then 0x80 ≤ b && b ≤ 0x9F
  else if lead = 0xF0 then 0x90 ≤ b && b ≤ 0xBF
  else if lead = 0xF4 then 0x80 ≤ b && b ≤ 0x8F
  else isContinuation b

/-- The length of the maximal ill-formed subpart at the front of bytes that
do not begin with a character. -/
def illFormed : List UInt8 → Nat
  | lead :: b :: rest =>
      if 3 ≤ width lead ∧ isSecond lead b = true then
        match rest with
        | c :: _ => if width lead = 4 ∧ isContinuation c = true then 3 else 2
        | [] => 2
      else 1
  | _ => 1

/-- `skip` counts the bytes of the current character or subpart still to be
passed over. -/
def decodeLossyFrom : Nat → List UInt8 → List Char
  | _, [] => []
  | skip + 1, _ :: bs => decodeLossyFrom skip bs
  | 0, b :: bs =>
      match first? (b :: bs) with
      | some c => c :: decodeLossyFrom (c.utf8Size - 1) bs
      | none => '\uFFFD' :: decodeLossyFrom (illFormed (b :: bs) - 1) bs

def decodeLossy (bs : List UInt8) : List Char := decodeLossyFrom 0 bs

theorem decodeLossyFrom_append (done rest : List UInt8) :
    decodeLossyFrom done.length (done ++ rest) = decodeLossy rest := by
  induction done with
  | nil => rfl
  | cons b done ih => exact ih

theorem decodeLossy_append (c : Char) (rest : List UInt8) :
    decodeLossy (String.utf8EncodeChar c ++ rest) = c :: decodeLossy rest := by
  obtain ⟨b, bs, hbs⟩ := List.exists_cons_of_ne_nil (String.utf8EncodeChar_ne_nil (c := c))
  have hsize : c.utf8Size - 1 = bs.length := by
    rw [← String.length_utf8EncodeChar, hbs, List.length_cons, Nat.add_sub_cancel]
  have hfirst : first? (b :: (bs ++ rest)) = some c := by
    rw [← List.cons_append, ← hbs, first?_append]
  rw [hbs, List.cons_append, decodeLossy]
  simp only [decodeLossyFrom, hfirst, hsize, decodeLossyFrom_append]

/-- Nothing is replaced in a well-formed text. -/
theorem decodeLossy_encode (cs : List Char) : decodeLossy (encode cs) = cs := by
  induction cs with
  | nil => rfl
  | cons c cs ih => rw [encode_cons, decodeLossy_append, ih]

/-- A truncated character is one subpart, an encoded surrogate three. -/
example : decodeLossy [0x41, 0xF0, 0x9F, 0x98, 0x42, 0xED, 0xA0, 0x80] =
    ['A', '\uFFFD', 'B', '\uFFFD', '\uFFFD', '\uFFFD'] := by decide

/-! ## Truncated texts -/

/-- Bytes that begin with a character are its bytes and the rest. -/
theorem eq_of_first? {bs : List UInt8} {c : Char} (h : first? bs = some c) :
    ∃ rest, bs = String.utf8EncodeChar c ++ rest := by
  obtain ⟨l, hl⟩ := ByteArray.exists_of_utf8DecodeChar?_eq_some h
  have hrest : l = l.data.toList.toByteArray := by
    apply ByteArray.ext
    rw [List.data_toByteArray, Array.toArray_toList]
  rw [hrest, ← List.toByteArray_append, List.toByteArray_inj] at hl
  exact ⟨l.data.toList, hl⟩

/-- Of a character cut short no character is left. -/
theorem first?_take {c : Char} {k : Nat} (hk : k < c.utf8Size) :
    first? ((String.utf8EncodeChar c).take k) = none := by
  cases hfirst : first? ((String.utf8EncodeChar c).take k) with
  | none => rfl
  | some d =>
      obtain ⟨rest, hrest⟩ := eq_of_first? hfirst
      have hc : String.utf8EncodeChar c =
          String.utf8EncodeChar d ++ (rest ++ (String.utf8EncodeChar c).drop k) := by
        rw [← List.append_assoc, ← hrest, List.take_append_drop]
      have hsame : some c = some d := by
        rw [← first?_append c [], List.append_nil, hc, first?_append]
      cases hsame
      have hlen := congrArg List.length hrest
      rw [List.length_take, List.length_append, String.length_utf8EncodeChar] at hlen
      omega

/-! ### The bytes of a character as numbers -/

theorem isContinuation_iff (b : UInt8) :
    isContinuation b = true ↔ 0x80 ≤ b.toNat ∧ b.toNat ≤ 0xBF := by
  rw [isContinuation, Bool.and_eq_true, decide_eq_true_eq, decide_eq_true_eq]
  exact Iff.rfl

/-- The second byte, as a range that depends on the first. -/
theorem isSecond_iff (lead b : UInt8) :
    isSecond lead b = true ↔ 0x80 ≤ b.toNat ∧ b.toNat ≤ 0xBF ∧
      (lead.toNat = 0xE0 → 0xA0 ≤ b.toNat) ∧ (lead.toNat = 0xED → b.toNat ≤ 0x9F) ∧
      (lead.toNat = 0xF0 → 0x90 ≤ b.toNat) ∧ (lead.toNat = 0xF4 → b.toNat ≤ 0x8F) := by
  have hrange : ∀ lo hi : UInt8,
      (lo ≤ b && b ≤ hi) = true ↔ lo.toNat ≤ b.toNat ∧ b.toNat ≤ hi.toNat := by
    intro lo hi
    rw [Bool.and_eq_true, decide_eq_true_eq, decide_eq_true_eq]
    exact Iff.rfl
  have hE0 : lead = 0xE0 ↔ lead.toNat = 0xE0 := UInt8.toNat_inj.symm
  have hED : lead = 0xED ↔ lead.toNat = 0xED := UInt8.toNat_inj.symm
  have hF0 : lead = 0xF0 ↔ lead.toNat = 0xF0 := UInt8.toNat_inj.symm
  have hF4 : lead = 0xF4 ↔ lead.toNat = 0xF4 := UInt8.toNat_inj.symm
  simp only [isSecond, isContinuation, hE0, hED, hF0, hF4]
  split
  · rw [hrange]
    simp only [UInt8.reduceToNat]
    omega
  · split
    · rw [hrange]
      simp only [UInt8.reduceToNat]
      omega
    · split
      · rw [hrange]
        simp only [UInt8.reduceToNat]
        omega
      · split
        · rw [hrange]
          simp only [UInt8.reduceToNat]
          omega
        · rw [hrange]
          simp only [UInt8.reduceToNat]
          omega

theorem width_three_le {lead : UInt8} (h : 0xE0 ≤ lead.toNat) (h' : lead.toNat < 0xF5) :
    3 ≤ width lead := by
  show 3 ≤ if lead.toNat < 0x80 then 1 else if lead.toNat < 0xC2 then 0
    else if lead.toNat < 0xE0 then 2 else if lead.toNat < 0xF0 then 3
    else if lead.toNat < 0xF5 then 4 else 0
  rw [if_neg (by omega), if_neg (by omega), if_neg (by omega)]
  rw [if_pos h']
  split <;> omega

theorem width_eq_four {lead : UInt8} (h : 0xF0 ≤ lead.toNat) (h' : lead.toNat < 0xF5) :
    width lead = 4 := by
  show (if lead.toNat < 0x80 then 1 else if lead.toNat < 0xC2 then 0
    else if lead.toNat < 0xE0 then 2 else if lead.toNat < 0xF0 then 3
    else if lead.toNat < 0xF5 then 4 else 0) = 4
  rw [if_neg (by omega), if_neg (by omega), if_neg (by omega), if_neg (by omega), if_pos h']

/-- The four forms of an encoded character. -/
theorem encodeChar_cases (c : Char) :
    (∃ a, String.utf8EncodeChar c = [a]) ∨
    (∃ a b, String.utf8EncodeChar c = [a, b]) ∨
    (∃ a b d, String.utf8EncodeChar c = [a, b, d] ∧ 3 ≤ width a ∧ isSecond a b = true) ∨
    ∃ a b d e, String.utf8EncodeChar c = [a, b, d, e] ∧ width a = 4 ∧ isSecond a b = true ∧
      isContinuation d = true := by
  have hvalid : c.val.toNat < 0xD800 ∨ (0xDFFF < c.val.toNat ∧ c.val.toNat < 0x110000) := c.valid
  have hbyte : ∀ n, n < 256 → (UInt8.ofNat n).toNat = n := fun n hn => UInt8.toNat_ofNat_of_lt' hn
  unfold String.utf8EncodeChar
  simp only
  split
  · exact .inl ⟨_, rfl⟩
  · split
    · exact .inr (.inl ⟨_, _, rfl⟩)
    · split
      · have hlead := hbyte (c.val.toNat / 4096 % 0x10 + 0xe0) (by omega)
        have hsecond := hbyte (c.val.toNat / 64 % 0x40 + 0x80) (by omega)
        refine .inr (.inr (.inl ⟨_, _, _, rfl, width_three_le (by omega) (by omega), ?_⟩))
        rw [isSecond_iff]
        omega
      · have hlead := hbyte (c.val.toNat / 262144 % 0x08 + 0xf0) (by omega)
        have hsecond := hbyte (c.val.toNat / 4096 % 0x40 + 0x80) (by omega)
        have hthird := hbyte (c.val.toNat / 64 % 0x40 + 0x80) (by omega)
        refine .inr (.inr (.inr ⟨_, _, _, _, rfl, width_eq_four (by omega) (by omega), ?_, ?_⟩))
        · rw [isSecond_iff]
          omega
        · rw [isContinuation_iff]
          omega

/-- A character cut short is one maximal subpart. -/
theorem illFormed_take {c : Char} {k : Nat} (h0 : 0 < k) (hk : k < c.utf8Size) :
    illFormed ((String.utf8EncodeChar c).take k) = k := by
  rw [← String.length_utf8EncodeChar] at hk
  rcases encodeChar_cases c with ⟨a, h⟩ | ⟨a, b, h⟩ | ⟨a, b, d, h, hwidth, hsecond⟩ |
    ⟨a, b, d, e, h, hwidth, hsecond, hthird⟩
  · rw [h] at hk
    simp only [List.length_cons, List.length_nil] at hk
    omega
  · rw [h] at hk ⊢
    simp only [List.length_cons, List.length_nil] at hk
    obtain rfl : k = 1 := by omega
    rfl
  · rw [h] at hk ⊢
    simp only [List.length_cons, List.length_nil] at hk
    obtain rfl | rfl : k = 1 ∨ k = 2 := by omega
    · rfl
    · simp only [List.take, illFormed, if_pos (And.intro hwidth hsecond)]
  · rw [h] at hk ⊢
    simp only [List.length_cons, List.length_nil] at hk
    have hthree : 3 ≤ width a := by omega
    obtain rfl | rfl | rfl : k = 1 ∨ k = 2 ∨ k = 3 := by omega
    · rfl
    · simp only [List.take, illFormed, if_pos (And.intro hthree hsecond)]
    · simp only [List.take, illFormed, if_pos (And.intro hthree hsecond),
        if_pos (And.intro hwidth hthird)]

theorem decodeLossy_take_char {c : Char} {k : Nat} (h0 : 0 < k) (hk : k < c.utf8Size) :
    decodeLossy ((String.utf8EncodeChar c).take k) = ['\uFFFD'] := by
  have hlen : ((String.utf8EncodeChar c).take k).length = k := by
    rw [List.length_take, String.length_utf8EncodeChar]
    omega
  obtain ⟨b, bs, hbs⟩ := List.exists_cons_of_length_pos (hlen.symm ▸ h0)
  have hfirst := first?_take hk
  have hwhole := illFormed_take h0 hk
  rw [hbs] at hfirst hwhole hlen ⊢
  have hskip : k - 1 = bs.length := by
    rw [← hlen, List.length_cons, Nat.add_sub_cancel]
  have hrest := decodeLossyFrom_append bs []
  rw [List.append_nil] at hrest
  rw [decodeLossy, decodeLossyFrom]
  simp only [hfirst, hwhole, hskip, hrest]
  rfl

/-- **A truncated text** decodes to the characters that are whole, followed by
one U+FFFD if a character was cut. -/
theorem decodeLossy_take (n : Nat) (cs : List Char) :
    ∃ whole rest, cs = whole ++ rest ∧ (encode whole).length ≤ n ∧
      (∀ c, rest.head? = some c → n < (encode whole).length + c.utf8Size) ∧
      decodeLossy ((encode cs).take n) =
        whole ++ if rest = [] ∨ (encode whole).length = n then [] else ['\uFFFD'] := by
  induction cs generalizing n with
  | nil =>
      refine ⟨[], [], rfl, Nat.zero_le n, ?_, ?_⟩
      · rintro c ⟨⟩
      · rw [if_pos (Or.inl rfl), show encode [] = [] from rfl, List.take_nil]
        rfl
  | cons c cs ih =>
      by_cases hfits : c.utf8Size ≤ n
      · -- the first character is whole
        obtain ⟨whole, rest, rfl, hle, hnext, hdecode⟩ := ih (n - c.utf8Size)
        have hsize : (encode (c :: whole)).length = c.utf8Size + (encode whole).length := by
          rw [encode_cons, List.length_append, String.length_utf8EncodeChar]
        have htake : (encode (c :: (whole ++ rest))).take n =
            String.utf8EncodeChar c ++ (encode (whole ++ rest)).take (n - c.utf8Size) := by
          rw [encode_cons, List.take_append, String.length_utf8EncodeChar,
            List.take_of_length_le (by rw [String.length_utf8EncodeChar]; exact hfits)]
        refine ⟨c :: whole, rest, rfl, by omega, ?_, ?_⟩
        · intro d hd
          have := hnext d hd
          omega
        · have hend : (encode whole).length = n - c.utf8Size ↔
              (encode (c :: whole)).length = n := by omega
          rw [htake, decodeLossy_append, hdecode]
          simp only [hend, List.cons_append]
      · -- it is cut, or nothing of it is left
        refine ⟨[], c :: cs, rfl, Nat.zero_le n, ?_, ?_⟩
        · rintro d ⟨⟩
          show n < 0 + c.utf8Size
          omega
        · have htake : (encode (c :: cs)).take n = (String.utf8EncodeChar c).take n := by
            rw [encode_cons, List.take_append_of_le_length]
            rw [String.length_utf8EncodeChar]
            omega
          rw [htake]
          by_cases hzero : n = 0
          · subst hzero
            have hnone : (c :: cs = [] ∨ (encode []).length = 0) := Or.inr rfl
            rw [if_pos hnone]
            rfl
          · have hcut : ¬ (c :: cs = [] ∨ (encode []).length = n) := by
              rintro (h | h)
              · cases h
              · exact hzero h.symm
            rw [if_neg hcut, decodeLossy_take_char (by omega) (by omega)]
            rfl

end Utf8
