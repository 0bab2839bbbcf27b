import Mathlib

/-!
# Lossy decoding of UTF-8

Bytes are decoded character by character.  What is no character becomes U+FFFD: the longest
start of a character that is broken off, or one byte that starts none.
-/

namespace Mowis.Lib

def replacement : Char := Char.ofNat 0xFFFD

/-- Read one continuation byte for each range, adding six bits for each to the code.  A byte
that is out of range ends the character, and stays. -/
def decodeTail : List (ℕ × ℕ) → ℕ → List UInt8 → Char × List UInt8
  | [], code, rest => (Char.ofNat code, rest)
  | _ :: _, _, [] => (replacement, [])
  | (lo, hi) :: ranges, code, b :: rest =>
    if lo ≤ b.toNat ∧ b.toNat ≤ hi then decodeTail ranges (code * 64 + (b.toNat - 0x80)) rest
    else (replacement, b :: rest)

/-- The first character of a text that starts with byte `b`, and the bytes after it.  Bytes
that start no character count as one replacement character, up to the byte that is wrong. -/
def decodeFirst (b : ℕ) (rest : List UInt8) : Char × List UInt8 :=
  if b < 0x80 then (Char.ofNat b, rest)
  else if 0xC2 ≤ b ∧ b ≤ 0xDF then decodeTail [(0x80, 0xBF)] (b - 0xC0) rest
  else if 0xE0 ≤ b ∧ b ≤ 0xEF then
    decodeTail [(if b = 0xE0 then 0xA0 else 0x80, if b = 0xED then 0x9F else 0xBF), (0x80, 0xBF)]
      (b - 0xE0) rest
  else if 0xF0 ≤ b ∧ b ≤ 0xF4 then
    decodeTail [(if b = 0xF0 then 0x90 else 0x80, if b = 0xF4 then 0x8F else 0xBF), (0x80, 0xBF),
      (0x80, 0xBF)] (b - 0xF0) rest
  else (replacement, rest)

theorem decodeTail_suffix (ranges : List (ℕ × ℕ)) (code : ℕ) (rest : List UInt8) :
    (decodeTail ranges code rest).2 <:+ rest := by
  induction ranges generalizing code rest with
  | nil => exact List.suffix_refl _
  | cons range ranges ih =>
    cases rest with
    | nil => exact List.suffix_refl _
    | cons b rest =>
      rw [decodeTail]
      split
      · exact (ih _ rest).trans (List.suffix_cons b rest)
      · exact List.suffix_refl _

theorem decodeFirst_suffix (b : ℕ) (rest : List UInt8) :
    (decodeFirst b rest).2 <:+ rest := by
  unfold decodeFirst
  split_ifs
  · exact List.suffix_refl _
  all_goals first | exact decodeTail_suffix _ _ rest | exact List.suffix_refl _

def lossyChars : List UInt8 → List Char
  | [] => []
  | b :: rest =>
    (decodeFirst b.toNat rest).1 :: lossyChars (decodeFirst b.toNat rest).2
termination_by bs => bs.length
decreasing_by exact Nat.lt_succ_of_le (decodeFirst_suffix b.toNat rest).length_le

def utf8 (t : List Char) : List UInt8 := t.flatMap String.utf8EncodeChar

@[simp] theorem utf8_nil : utf8 [] = [] := rfl

@[simp] theorem utf8_cons (c : Char) (t : List Char) :
    utf8 (c :: t) = String.utf8EncodeChar c ++ utf8 t := rfl

@[simp] theorem utf8_append (t u : List Char) : utf8 (t ++ u) = utf8 t ++ utf8 u :=
  List.flatMap_append

theorem toNat_replacement : replacement.toNat = 0xFFFD := rfl

theorem ne_replacement {c : Char} (hc : c.toNat < 0x80) : c ≠ replacement := by
  rintro rfl
  rw [toNat_replacement] at hc
  omega

theorem utf8Size_ascii {c : Char} : c.utf8Size = 1 ↔ c.toNat < 0x80 := by
  rw [Char.utf8Size_eq_one_iff, UInt32.le_iff_toNat_le]
  exact Nat.lt_succ_iff.symm

def InRange (x : UInt8) (range : ℕ × ℕ) : Prop := range.1 ≤ x.toNat ∧ x.toNat ≤ range.2

def IsCont (b : UInt8) : Prop := 0x80 ≤ b.toNat ∧ b.toNat ≤ 0xBF

def addBits (v : ℕ) (x : UInt8) : ℕ := v * 64 + (x.toNat - 0x80)

theorem decodeTail_append {ranges : List (ℕ × ℕ)} {v : ℕ} {xs : List UInt8}
    (h : List.Forall₂ InRange xs ranges) (rest : List UInt8) :
    decodeTail ranges v (xs ++ rest) = (Char.ofNat (xs.foldl addBits v), rest) := by
  induction h generalizing v with
  | nil => rfl
  | cons hx _ ih =>
    rw [InRange] at hx
    rw [List.cons_append, decodeTail, if_pos hx, List.foldl_cons]
    exact ih

theorem decodeTail_truncated {ranges : List (ℕ × ℕ)} {v : ℕ} {xs ys : List UInt8}
    (h : List.Forall₂ InRange (xs ++ ys) ranges) (hys : ys ≠ []) :
    decodeTail ranges v xs = (replacement, []) := by
  induction xs generalizing v ranges with
  | nil =>
    cases h with
    | nil => exact absurd rfl hys
    | cons hx _ => rw [decodeTail]
  | cons x xs ih =>
    cases h with
    | cons hx h =>
      rw [InRange] at hx
      rw [decodeTail, if_pos hx]
      exact ih h

theorem toNat_ofNat_of_lt {n : ℕ} (h : n < 256) : (UInt8.ofNat n).toNat = n := by
  rw [UInt8.toNat_ofNat', Nat.mod_eq_of_lt h]

def contByte (d : ℕ) : UInt8 := UInt8.ofNat (d % 0x40 + 0x80)

theorem toNat_contByte (d : ℕ) : (contByte d).toNat = d % 64 + 128 :=
  toNat_ofNat_of_lt (by omega)

theorem addBits_contByte (v d : ℕ) : addBits v (contByte d) = v * 64 + d % 64 := by
  have hx := toNat_contByte d
  unfold addBits
  omega

theorem isCont_contByte (d : ℕ) : IsCont (contByte d) := by
  rw [IsCont, toNat_contByte]
  omega

theorem inRange_contByte {d lo hi : ℕ} (hlo : lo ≤ d % 64 + 128) (hhi : d % 64 + 128 ≤ hi) :
    InRange (contByte d) (lo, hi) := by
  rw [InRange, toNat_contByte]
  exact ⟨hlo, hhi⟩

theorem utf8EncodeChar_eq (c : Char) :
    ∃ b xs ranges v, String.utf8EncodeChar c = b :: xs ∧
      (∀ rest, decodeFirst b.toNat rest = decodeTail ranges v rest) ∧
      List.Forall₂ InRange xs ranges ∧ (∀ x ∈ xs, IsCont x) ∧ xs.foldl addBits v = c.toNat := by
  have hval : c.val.toNat = c.toNat := rfl
  have hvalid : c.toNat < 0xD800 ∨ 0xDFFF < c.toNat ∧ c.toNat < 0x110000 := c.valid
  rw [String.utf8EncodeChar, hval]
  by_cases h₁ : c.toNat ≤ 0x7F
  · have hb := @toNat_ofNat_of_lt c.toNat (by omega)
    refine ⟨UInt8.ofNat c.toNat, [], [], c.toNat, if_pos h₁, fun rest => ?_, .nil, by simp, rfl⟩
    rw [hb, decodeFirst, if_pos (by omega), decodeTail]
  · rw [if_neg h₁]
    by_cases h₂ : c.toNat ≤ 0x7FF
    · have hb := @toNat_ofNat_of_lt (c.toNat / 64 % 0x20 + 0xC0) (by omega)
      refine ⟨UInt8.ofNat (c.toNat / 64 % 0x20 + 0xC0), [contByte c.toNat], [(0x80, 0xBF)],
        c.toNat / 64, if_pos h₂, fun rest => ?_, ?_, ?_, ?_⟩
      · rw [hb, decodeFirst, if_neg (by omega), if_pos (by omega),
          show c.toNat / 64 % 0x20 + 0xC0 - 0xC0 = c.toNat / 64 by omega]
      · exact .cons (isCont_contByte _) .nil
      · simpa using isCont_contByte _
      · rw [List.foldl_cons, List.foldl_nil, addBits_contByte]
        omega
    · rw [if_neg h₂]
      by_cases h₃ : c.toNat ≤ 0xFFFF
      · have hb := @toNat_ofNat_of_lt (c.toNat / 4096 % 0x10 + 0xE0) (by omega)
        refine ⟨UInt8.ofNat (c.toNat / 4096 % 0x10 + 0xE0),
          [contByte (c.toNat / 64), contByte c.toNat],
          [(if c.toNat / 4096 % 0x10 + 0xE0 = 0xE0 then 0xA0 else 0x80,
            if c.toNat / 4096 % 0x10 + 0xE0 = 0xED then 0x9F else 0xBF), (0x80, 0xBF)],
          c.toNat / 4096, if_pos h₃, fun rest => ?_, ?_, ?_, ?_⟩
        · rw [hb, decodeFirst, if_neg (by omega), if_neg (by omega), if_pos (by omega),
            show c.toNat / 4096 % 0x10 + 0xE0 - 0xE0 = c.toNat / 4096 by omega]
        · refine .cons (inRange_contByte ?_ ?_) (.cons (isCont_contByte _) .nil)
          · split_ifs <;> omega
          · split_ifs <;> omega
        · simp [isCont_contByte]
        · rw [List.foldl_cons, List.foldl_cons, List.foldl_nil, addBits_contByte, addBits_contByte]
          omega
      · have hb := @toNat_ofNat_of_lt (c.toNat / 262144 % 0x08 + 0xF0) (by omega)
        refine ⟨UInt8.ofNat (c.toNat / 262144 % 0x08 + 0xF0),
          [contByte (c.toNat / 4096), contByte (c.toNat / 64), contByte c.toNat],
          [(if c.toNat / 262144 % 0x08 + 0xF0 = 0xF0 then 0x90 else 0x80,
            if c.toNat / 262144 % 0x08 + 0xF0 = 0xF4 then 0x8F else 0xBF), (0x80, 0xBF),
            (0x80, 0xBF)],
          c.toNat / 262144, if_neg h₃, fun rest => ?_, ?_, ?_, ?_⟩
        · rw [hb, decodeFirst, if_neg (by omega), if_neg (by omega), if_neg (by omega),
            if_pos (by omega), show c.toNat / 262144 % 0x08 + 0xF0 - 0xF0 = c.toNat / 262144 by omega]
        · refine .cons (inRange_contByte ?_ ?_)
            (.cons (isCont_contByte _) (.cons (isCont_contByte _) .nil))
          · split_ifs <;> omega
          · split_ifs <;> omega
        · simp [isCont_contByte]
        · rw [List.foldl_cons, List.foldl_cons, List.foldl_cons, List.foldl_nil, addBits_contByte,
            addBits_contByte, addBits_contByte]
          omega

theorem lossyChars_nil : lossyChars [] = [] := by rw [lossyChars]

theorem lossyChars_encode (c : Char) (rest : List UInt8) :
    lossyChars (String.utf8EncodeChar c ++ rest) = c :: lossyChars rest := by
  obtain ⟨b, xs, ranges, v, henc, hfirst, hranges, -, hval⟩ := utf8EncodeChar_eq c
  rw [henc, List.cons_append, lossyChars, hfirst, decodeTail_append hranges, hval,
    Char.ofNat_toNat]

theorem lossyChars_utf8_append (t : List Char) (rest : List UInt8) :
    lossyChars (utf8 t ++ rest) = t ++ lossyChars rest := by
  induction t with
  | nil => rfl
  | cons c t ih => rw [utf8_cons, List.append_assoc, lossyChars_encode, ih, List.cons_append]

/-- **An encoded text is read back.** -/
theorem lossyChars_utf8 (t : List Char) : lossyChars (utf8 t) = t := by
  have h := lossyChars_utf8_append t []
  rwa [List.append_nil, lossyChars_nil, List.append_nil] at h

theorem utf8_injective : Function.Injective utf8 :=
  Function.LeftInverse.injective lossyChars_utf8

def decodeUtf8 (bytes : List UInt8) : Option (List Char) :=
  if utf8 (lossyChars bytes) = bytes then some (lossyChars bytes) else none

theorem decodeUtf8_eq_some {bytes : List UInt8} {t : List Char} :
    decodeUtf8 bytes = some t ↔ bytes = utf8 t := by
  unfold decodeUtf8
  constructor
  · intro h
    split at h
    · next heq =>
      cases h
      exact heq.symm
    · cases h
  · rintro rfl
    rw [lossyChars_utf8, if_pos rfl]

theorem utf8_append_inv {t u : List Char} {bytes : List UInt8} (h : utf8 t ++ bytes = utf8 u) :
    ∃ v, u = t ++ v ∧ bytes = utf8 v := by
  have hread := congrArg lossyChars h
  rw [lossyChars_utf8_append, lossyChars_utf8] at hread
  refine ⟨lossyChars bytes, hread.symm, ?_⟩
  rw [← hread, utf8_append] at h
  exact List.append_cancel_left h

theorem lossyChars_conts {bytes : List UInt8} (h : ∀ b ∈ bytes, IsCont b)
    (rest : List UInt8) :
    lossyChars (bytes ++ rest) =
      List.replicate bytes.length replacement ++ lossyChars rest := by
  induction bytes with
  | nil => rfl
  | cons b bytes ih =>
    have hb := h b List.mem_cons_self
    rw [IsCont] at hb
    have hfirst : decodeFirst b.toNat (bytes ++ rest) = (replacement, bytes ++ rest) := by
      rw [decodeFirst, if_neg (by omega), if_neg (by omega), if_neg (by omega), if_neg (by omega)]
    rw [List.cons_append, lossyChars, hfirst, ih fun x hx => h x (List.mem_cons_of_mem _ hx),
      List.length_cons, List.replicate_succ, List.cons_append]

theorem utf8EncodeChar_cut {c : Char} {p q : List UInt8} (h : String.utf8EncodeChar c = p ++ q)
    (hp : p ≠ []) (hq : q ≠ []) :
    lossyChars p = [replacement] ∧ ∀ x ∈ q, IsCont x := by
  obtain ⟨b, xs, ranges, v, henc, hfirst, hranges, hcont, -⟩ := utf8EncodeChar_eq c
  rw [henc] at h
  cases p with
  | nil => exact absurd rfl hp
  | cons b' p =>
    rw [List.cons_append, List.cons.injEq] at h
    obtain ⟨rfl, rfl⟩ := h
    refine ⟨?_, fun x hx => hcont x (List.mem_append_right _ hx)⟩
    rw [lossyChars, hfirst, decodeTail_truncated hranges hq, lossyChars_nil]

/-- A text in which some characters of several bytes have become two or more U+FFFD. -/
inductive Mangled : List Char → List Char → Prop where
  | nil : Mangled [] []
  | keep (c : Char) {t r : List Char} (h : Mangled t r) : Mangled (c :: t) (c :: r)
  | broken (c : Char) (n : ℕ) {t r : List Char} (hc : 1 < c.utf8Size) (hn : 2 ≤ n)
      (h : Mangled t r) : Mangled (c :: t) (List.replicate n replacement ++ r)

theorem Mangled.refl (t : List Char) : Mangled t t := by
  induction t with
  | nil => exact .nil
  | cons c t ih => exact .keep c ih

theorem Mangled.append {t t' r r' : List Char} (h : Mangled t r) (h' : Mangled t' r') :
    Mangled (t ++ t') (r ++ r') := by
  induction h with
  | nil => exact h'
  | keep c _ ih => exact .keep c ih
  | broken c n hc hn _ ih =>
    rw [List.append_assoc]
    exact .broken c n hc hn ih

theorem utf8_eq_append {t : List Char} {p q : List UInt8} (h : utf8 t = p ++ q) :
    (∃ t₁ t₂, t = t₁ ++ t₂ ∧ p = utf8 t₁ ∧ q = utf8 t₂) ∨
      ∃ t₁ c t₂ p' q', t = t₁ ++ c :: t₂ ∧ String.utf8EncodeChar c = p' ++ q' ∧ p' ≠ [] ∧ q' ≠ [] ∧
        p = utf8 t₁ ++ p' ∧ q = q' ++ utf8 t₂ := by
  induction t generalizing p with
  | nil =>
    obtain ⟨rfl, rfl⟩ := List.append_eq_nil_iff.mp h.symm
    exact .inl ⟨[], [], rfl, rfl, rfl⟩
  | cons c t ih =>
    rw [utf8_cons] at h
    rcases List.append_eq_append_iff.mp h with ⟨u, rfl, hrest⟩ | ⟨u, henc, rfl⟩
    · rcases ih hrest with ⟨t₁, t₂, rfl, rfl, rfl⟩ | ⟨t₁, c', t₂, p', q', rfl, henc, hp, hq, rfl, rfl⟩
      · exact .inl ⟨c :: t₁, t₂, rfl, rfl, rfl⟩
      · refine .inr ⟨c :: t₁, c', t₂, p', q', rfl, henc, hp, hq, ?_, rfl⟩
        rw [utf8_cons, List.append_assoc]
    · by_cases hp : p = []
      · subst hp
        exact .inl ⟨[], c :: t, rfl, rfl, by rw [utf8_cons, henc, List.nil_append]⟩
      · by_cases hu : u = []
        · subst hu
          rw [List.append_nil] at henc
          exact .inl ⟨[c], t, rfl, by rw [utf8_cons, utf8_nil, List.append_nil, henc], rfl⟩
        · exact .inr ⟨[], c, t, p, u, rfl, henc, hp, hu, rfl, rfl⟩

/-- **What is received of a text.**  The chunks are decoded one by one; before them, the rest
of a character may be left whose start was decoded already. -/
theorem mangled_of_chunks (chunks : List (List UInt8)) {pending : List UInt8}
    (hpending : ∀ b ∈ pending, IsCont b) {t : List Char}
    (h : chunks.flatten = pending ++ utf8 t) :
    ∃ r, Mangled t r ∧
      chunks.flatMap lossyChars = List.replicate pending.length replacement ++ r := by
  induction chunks generalizing pending t with
  | nil =>
    obtain ⟨rfl, ht⟩ := List.append_eq_nil_iff.mp h.symm
    cases t with
    | nil => exact ⟨[], .nil, rfl⟩
    | cons c t =>
      obtain ⟨b, xs, ranges, v, henc, -⟩ := utf8EncodeChar_eq c
      rw [utf8_cons, henc] at ht
      cases ht
  | cons chunk rest ih =>
    rw [List.flatten_cons] at h
    rw [List.flatMap_cons]
    rcases List.append_eq_append_iff.mp h with ⟨u, rfl, hrest⟩ | ⟨u, rfl, hrest⟩
    · -- the chunk ends before the pending bytes do
      obtain ⟨r, hmangled, hr⟩ := ih (fun b hb => hpending b (List.mem_append_right _ hb)) hrest
      have hchunk := lossyChars_conts (fun b hb => hpending b (List.mem_append_left u hb)) []
      rw [List.append_nil, lossyChars_nil, List.append_nil] at hchunk
      refine ⟨r, hmangled, ?_⟩
      rw [hchunk, hr, List.length_append, List.replicate_add, List.append_assoc]
    · rw [lossyChars_conts hpending]
      rcases utf8_eq_append hrest with ⟨t₁, t₂, rfl, rfl, hq⟩ |
        ⟨t₁, c, t₂, p, q, rfl, henc, hp, hq, rfl, hrest'⟩
      · obtain ⟨r, hmangled, hr⟩ := ih (by simp) ((List.nil_append _).trans hq.symm).symm
        refine ⟨t₁ ++ r, (Mangled.refl t₁).append hmangled, ?_⟩
        rw [lossyChars_utf8, hr, List.append_assoc]
        rfl
      · obtain ⟨hstart, hconts⟩ := utf8EncodeChar_cut henc hp hq
        obtain ⟨r, hmangled, hr⟩ := ih hconts hrest'
        have hsize : c.utf8Size = p.length + q.length := by
          rw [← String.length_utf8EncodeChar, henc, List.length_append]
        have hp' := List.length_pos_iff.mpr hp
        have hq' := List.length_pos_iff.mpr hq
        refine ⟨t₁ ++ (List.replicate (1 + q.length) replacement ++ r),
          (Mangled.refl t₁).append (.broken c _ (by omega) (by omega) hmangled), ?_⟩
        rw [lossyChars_utf8_append, hstart, hr, List.replicate_add]
        simp

theorem lossyChars_split {c : Char} (hc : 1 < c.utf8Size) (t u : List Char) :
    ∃ p q, p ++ q = utf8 (t ++ c :: u) ∧ ∃ n, 2 ≤ n ∧
      lossyChars p ++ lossyChars q = t ++ List.replicate n replacement ++ u := by
  obtain ⟨b, xs, ranges, v, henc, -⟩ := utf8EncodeChar_eq c
  have hxs : xs ≠ [] := by
    rintro rfl
    rw [← String.length_utf8EncodeChar, henc] at hc
    exact absurd hc (lt_irrefl _)
  obtain ⟨hstart, hconts⟩ := @utf8EncodeChar_cut c [b] xs henc (by simp) hxs
  refine ⟨utf8 t ++ [b], xs ++ utf8 u, ?_, 1 + xs.length, ?_, ?_⟩
  · rw [utf8_append, utf8_cons, henc]
    simp
  · have := List.length_pos_iff.mpr hxs
    omega
  · rw [lossyChars_utf8_append, hstart, lossyChars_conts hconts, lossyChars_utf8,
      List.replicate_add]
    simp

end Mowis.Lib
