import Mathlib

/-!
# The newc archive format

A record is a header of a magic number and thirteen fields of eight hexadecimal digits, a name with
a zero byte behind it, and data; name and data are padded to a multiple of four bytes.
-/

namespace Mowis.Lib.Newc

abbrev Bytes := List UInt8

def ascii (s : String) : Bytes := s.toList.map fun c => c.toNat.toUInt8

def hexDigit (d : ℕ) : UInt8 := if d < 10 then (48 + d).toUInt8 else (55 + d).toUInt8

def digitValue (b : UInt8) : Option ℕ :=
  if 48 ≤ b.toNat ∧ b.toNat ≤ 57 then some (b.toNat - 48)
  else if 65 ≤ b.toNat ∧ b.toNat ≤ 70 then some (b.toNat - 55)
  else if 97 ≤ b.toNat ∧ b.toNat ≤ 102 then some (b.toNat - 87)
  else none

/-- The digits of `n`, with zeros in front up to eight digits. -/
def hexField (n : ℕ) : Bytes :=
  List.replicate (8 - (Nat.digits 16 n).length) 48 ++ (Nat.digits 16 n).reverse.map hexDigit

def readFrom (acc : ℕ) : Bytes → Option ℕ
  | [] => some acc
  | b :: bs => (digitValue b).bind fun d => readFrom (16 * acc + d) bs

def readHex (bs : Bytes) : Option ℕ := readFrom 0 bs

theorem digitValue_hexDigit {d : ℕ} (h : d < 16) : digitValue (hexDigit d) = some d := by
  have hall : ∀ d < 16, digitValue (hexDigit d) = some d := by decide
  exact hall d h

theorem readFrom_append (acc : ℕ) (bs bs' : Bytes) :
    readFrom acc (bs ++ bs') = (readFrom acc bs).bind fun v => readFrom v bs' := by
  induction bs generalizing acc with
  | nil => rfl
  | cons b bs ih =>
    show ((digitValue b).bind fun d => readFrom (16 * acc + d) (bs ++ bs')) = _
    rw [readFrom, Option.bind_assoc]
    congr 1
    funext d
    exact ih _

theorem readFrom_digits (ds : List ℕ) (h : ∀ d ∈ ds, d < 16) (acc : ℕ) :
    readFrom acc (ds.reverse.map hexDigit) = some (16 ^ ds.length * acc + Nat.ofDigits 16 ds) := by
  induction ds generalizing acc with
  | nil => simp [readFrom]
  | cons d ds ih =>
    obtain ⟨hd, hds⟩ := List.forall_mem_cons.mp h
    rw [List.reverse_cons, List.map_append, readFrom_append, ih hds]
    show ((digitValue (hexDigit d)).bind fun d => some (16 * _ + d)) = _
    rw [digitValue_hexDigit hd, Nat.ofDigits_cons, List.length_cons, pow_succ]
    show some (16 * (16 ^ ds.length * acc + Nat.ofDigits 16 ds) + d) = _
    congr 1
    ring

theorem readFrom_zeros (k : ℕ) : readFrom 0 (List.replicate k 48) = some 0 := by
  induction k with
  | zero => rfl
  | succ k ih => exact ih

theorem readHex_hexField (n : ℕ) : readHex (hexField n) = some n := by
  have hdigits : ∀ d ∈ Nat.digits 16 n, d < 16 := fun d hd => Nat.digits_lt_base (by decide) hd
  rw [readHex, hexField, readFrom_append, readFrom_zeros]
  show readFrom 0 _ = _
  rw [readFrom_digits _ hdigits, Nat.ofDigits_digits, Nat.mul_zero, Nat.zero_add]

theorem le_length_hexField (n : ℕ) : 8 ≤ (hexField n).length := by
  rw [hexField, List.length_append, List.length_replicate, List.length_map, List.length_reverse]
  omega

theorem length_hexField {n : ℕ} (h : n < 16 ^ 8) : (hexField n).length = 8 := by
  have hdigits : (Nat.digits 16 n).length ≤ 8 :=
    (Nat.digits_length_le_iff (by decide) n).mpr h
  rw [hexField, List.length_append, List.length_replicate, List.length_map, List.length_reverse]
  omega

theorem le_of_readFrom {acc v : ℕ} {bs : Bytes} (h : readFrom acc bs = some v) :
    16 ^ bs.length * acc ≤ v := by
  induction bs generalizing acc with
  | nil =>
    cases h
    rw [List.length_nil, pow_zero, Nat.one_mul]
  | cons b bs ih =>
    obtain ⟨d, -, hv⟩ := Option.bind_eq_some_iff.mp h
    refine le_trans ?_ (ih hv)
    rw [List.length_cons, pow_succ, Nat.mul_assoc]
    exact Nat.mul_le_mul_left _ (Nat.le_add_right _ _)

theorem readHex_take_le {n v : ℕ} {front back : Bytes} (h : hexField n = front ++ back)
    (hback : back ≠ []) (hread : readHex front = some v) : 16 * v ≤ n := by
  have hwhole := readHex_hexField n
  rw [h, readHex, readFrom_append] at hwhole
  rw [readHex] at hread
  rw [hread] at hwhole
  refine le_trans (Nat.mul_le_mul_right v ?_) (le_of_readFrom hwhole)
  exact Nat.le_self_pow (List.length_pos_iff.mpr hback).ne' 16

structure Entry where
  mode : ℕ
  name : Bytes
  data : Bytes
  deriving DecidableEq

def magic : Bytes := ascii "070701"

def trailer : Bytes := ascii "TRAILER!!!"

def padding (n : ℕ) : ℕ := (4 - n % 4) % 4

/-- The field of number `k`. -/
def field (bs : Bytes) (k : ℕ) : Option ℕ := readHex ((bs.drop (6 + 8 * k)).take 8)

def readEntry (bs : Bytes) : Option (Entry × Bytes) :=
  if bs.take 6 = magic ∧ 110 ≤ bs.length ∧ ∀ k < 13, (field bs k).isSome then
    match field bs 1, field bs 6, field bs 11 with
    | some mode, some filesize, some namesize =>
      let afterHeader := bs.drop 110
      let afterName := afterHeader.drop (namesize + padding (110 + namesize))
      if 1 ≤ namesize ∧ afterHeader[namesize - 1]? = some 0 ∧ filesize ≤ afterName.length then
        some (⟨mode, afterHeader.take (namesize - 1), afterName.take filesize⟩,
          afterName.drop (filesize + padding filesize))
      else none
    | _, _, _ => none
  else none

def readArchive : ℕ → Bytes → Option (List Entry)
  | 0, _ => none
  | fuel + 1, bs =>
    (readEntry bs).bind fun (e, rest) =>
      if e.name = trailer then some [] else (readArchive fuel rest).map (e :: ·)

theorem readEntry_cases {bs rest : Bytes} {e : Entry} (h : readEntry bs = some (e, rest)) :
    ∃ namesize, field bs 11 = some namesize ∧ 1 ≤ namesize ∧
      (bs.drop 110)[namesize - 1]? = some 0 ∧ e.name = (bs.drop 110).take (namesize - 1) := by
  unfold readEntry at h
  split at h
  · split at h
    · next mode filesize namesize _ _ hnamesize =>
      simp only at h
      split at h
      · next hok =>
        cases h
        exact ⟨namesize, hnamesize, hok.1, hok.2.1, rfl⟩
      · cases h
    · cases h
  · cases h

end Mowis.Lib.Newc
