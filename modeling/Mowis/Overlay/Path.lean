import Mowis.Lib.Utf8

/-!
# Names and paths

A name of a directory entry is a byte string without a slash, as on Linux; it need not be
UTF-8.
-/

namespace Mowis.Overlay

open Mowis.Lib

structure Name where
  bytes : ByteArray
  noSlash : 0x2F ∉ bytes.data.toList
  deriving DecidableEq

abbrev Path := List Name
abbrev Content := ByteArray

def pathBytes : Path → ByteArray
  | [] => ByteArray.empty
  | [n] => n.bytes
  | n :: p => n.bytes ++ ⟨#[0x2F]⟩ ++ pathBytes p

def pathText : Path → Option String
  | [] => some ""
  | [n] => String.fromUTF8? n.bytes
  | n :: m :: p =>
    match String.fromUTF8? n.bytes, pathText (m :: p) with
    | some s, some t => some (s ++ "/" ++ t)
    | _, _ => none

theorem toNat_charOfNat {n : ℕ} (h : n.isValidChar) : (Char.ofNat n).toNat = n := by
  rw [Char.ofNat, dif_pos h]
  rfl

theorem charOfNat_ne_slash {n : ℕ} (hn : 0x80 ≤ n) : Char.ofNat n ≠ '/' := by
  intro h
  by_cases hvalid : n.isValidChar
  · have hv := toNat_charOfNat hvalid
    have hslash : ('/' : Char).toNat = 0x2F := by decide
    rw [h, hslash] at hv
    omega
  · rw [Char.ofNat, dif_neg hvalid] at h
    exact absurd h (by decide)

theorem replacement_ne_slash : replacement ≠ '/' := by decide

theorem decodeTail_ne_slash (ranges : List (ℕ × ℕ)) (code : ℕ) (rest : List UInt8)
    (hcode : 0x80 ≤ code * 64 ^ ranges.length) :
    (decodeTail ranges code rest).1 ≠ '/' := by
  induction ranges generalizing code rest with
  | nil => exact charOfNat_ne_slash (by simpa using hcode)
  | cons range ranges ih =>
    cases rest with
    | nil => exact replacement_ne_slash
    | cons b rest =>
      rw [decodeTail]
      split
      · apply ih
        rw [List.length_cons, Nat.pow_succ', ← Nat.mul_assoc] at hcode
        exact Nat.le_trans hcode (Nat.mul_le_mul_right _ (Nat.le_add_right _ _))
      · exact replacement_ne_slash

theorem decodeTail_cons_ne_slash (lo hi : ℕ) (ranges : List (ℕ × ℕ)) (code : ℕ)
    (rest : List UInt8) (hcode : 0x80 ≤ (code * 64 + (lo - 0x80)) * 64 ^ ranges.length) :
    (decodeTail ((lo, hi) :: ranges) code rest).1 ≠ '/' := by
  cases rest with
  | nil => exact replacement_ne_slash
  | cons b rest =>
    rw [decodeTail]
    split
    · next hb =>
      apply decodeTail_ne_slash
      have hbits : code * 64 + (lo - 0x80) ≤ code * 64 + (b.toNat - 0x80) := by omega
      exact Nat.le_trans hcode (Nat.mul_le_mul_right _ hbits)
    · exact replacement_ne_slash

theorem decodeFirst_slash {b : ℕ} {rest : List UInt8}
    (h : (decodeFirst b rest).1 = '/') : b = 0x2F := by
  by_cases hascii : b < 0x80
  · rw [decodeFirst, if_pos hascii] at h
    have hv : (Char.ofNat b).toNat = b := toNat_charOfNat (Or.inl (by omega))
    rw [← hv]
    exact congrArg Char.toNat h
  · exfalso
    revert h
    rw [decodeFirst, if_neg hascii]
    split_ifs with h2 h3 hE0 hED hED h4 hF0 hF4 hF4
    · apply decodeTail_cons_ne_slash
      simp only [List.length_nil]
      omega
    all_goals first | exact replacement_ne_slash | apply decodeTail_cons_ne_slash
    all_goals
      simp only [List.length_cons, List.length_nil]
      omega

/-- `to_string_lossy`: valid UTF-8 is kept, other bytes are replaced. -/
def toStringLossy (bytes : ByteArray) : String :=
  match String.fromUTF8? bytes with
  | some s => s
  | none => String.ofList (lossyChars bytes.data.toList)

theorem lossyChars_noSlash (bs : List UInt8) (h : 0x2F ∉ bs) : '/' ∉ lossyChars bs := by
  induction bs using lossyChars.induct with
  | case1 => simp [lossyChars]
  | case2 b rest ih =>
    rw [lossyChars, List.mem_cons, not_or]
    constructor
    · intro hslash
      have hb : b.toNat = 0x2F := decodeFirst_slash hslash.symm
      exact h (List.mem_cons.mpr (Or.inl (UInt8.toNat_inj.mp hb.symm)))
    · apply ih
      intro hmem
      exact h (List.mem_cons_of_mem b ((decodeFirst_suffix b.toNat rest).subset hmem))

theorem fromUTF8?_eq_some {bytes : ByteArray} {s : String}
    (h : String.fromUTF8? bytes = some s) : s.toByteArray = bytes := by
  unfold String.fromUTF8? at h
  split at h
  · cases h
    rfl
  · cases h

theorem slash_mem_utf8Encode (cs : List Char) (h : '/' ∈ cs) :
    0x2F ∈ cs.utf8Encode.data.toList := by
  have hbyte : String.utf8EncodeChar '/' = [0x2F] := by decide
  rw [List.utf8Encode, List.data_toByteArray, List.mem_flatMap]
  exact ⟨'/', h, by rw [hbyte]; exact List.mem_singleton_self _⟩

theorem toStringLossy_noSlash (n : Name) : '/' ∉ (toStringLossy n.bytes).toList := by
  unfold toStringLossy
  cases hs : String.fromUTF8? n.bytes with
  | some s =>
    intro hmem
    have hslash := slash_mem_utf8Encode s.toList hmem
    rw [String.utf8Encode_toList, fromUTF8?_eq_some hs] at hslash
    exact n.noSlash hslash
  | none =>
    show '/' ∉ (String.ofList (lossyChars n.bytes.data.toList)).toList
    rw [String.toList_ofList]
    exact lossyChars_noSlash _ n.noSlash

theorem toStringLossy_of_utf8 {bytes : ByteArray} {s : String}
    (h : String.fromUTF8? bytes = some s) : toStringLossy bytes = s := by
  rw [toStringLossy, h]

theorem Name.eq_of_bytes {n m : Name} (h : n.bytes = m.bytes) : n = m := by
  cases n
  cases m
  simpa using h

theorem pathText_nested {n m : Name} {p : Path} {s : String}
    (h : pathText (n :: m :: p) = some s) : '/' ∈ s.toList := by
  rw [pathText] at h
  split at h
  · cases h
    simp
  · cases h

end Mowis.Overlay
