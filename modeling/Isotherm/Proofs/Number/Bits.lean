import Isotherm.Number.Scaled
import Mathlib

/-!
# Doubles and their bit patterns

A double is determined by its word, and every word that is no NaN is the word of a double. Negation
flips the sign field and nothing else, so it is an exact involution. Finiteness is a bound on the
magnitude field. Everything here is read off the three fields of a word; no value is rounded.
-/

namespace Isotherm.Bits

open Float.Model Float.Model.UnpackedFloat

/-- The bit pattern of a double. -/
abbrev Word := BitVec Format.binary64.numBits

/-! ## The fields of a word -/

theorem toNat_append {m n : Nat} (x : BitVec m) (y : BitVec n) :
    (x ++ y).toNat = x.toNat * 2 ^ n + y.toNat := by
  rw [BitVec.toNat_append, ← Nat.shiftLeft_add_eq_or_of_lt y.isLt, Nat.shiftLeft_eq]

theorem toNat_packComponents (s : Sign) (e : BitVec 11) (m : BitVec 52) :
    (packComponents Format.binary64 s e m).toNat =
      s.toBitVec.toNat * 2 ^ 63 + e.toNat * 2 ^ 52 + m.toNat := by
  unfold packComponents
  rw [toNat_append, toNat_append]
  omega

theorem toNat_unpackMantissa (b : Word) : (unpackMantissa b).toNat = b.toNat % 2 ^ 52 := by
  simp [unpackMantissa]

theorem toNat_unpackExponent (b : Word) :
    (unpackExponent b).toNat = b.toNat / 2 ^ 52 % 2048 := by
  simp [unpackExponent, Nat.shiftRight_eq_div_pow]

theorem toNat_unpackSign (b : Word) : (unpackSign b).toNat = b.toNat / 2 ^ 63 := by
  have h : b.toNat < 2 ^ 64 := b.isLt
  simp [unpackSign, Nat.shiftRight_eq_div_pow]
  omega

@[simp] theorem toBitVec_ofBitVec (s : BitVec 1) : (Sign.ofBitVec s).toBitVec = s := by
  rcases BitVec.eq_zero_or_eq_one s with rfl | rfl <;> rfl

@[simp] theorem ofBitVec_toBitVec (s : Sign) : Sign.ofBitVec s.toBitVec = s := by
  cases s <;> rfl

@[simp] theorem unpackSign_packComponents (s : Sign) (e : BitVec 11) (m : BitVec 52) :
    unpackSign (packComponents Format.binary64 s e m) = s.toBitVec := by
  apply BitVec.eq_of_toNat_eq
  rw [toNat_unpackSign, toNat_packComponents]
  have he := e.isLt
  have hm := m.isLt
  omega

/-- A word is its three fields put together. -/
theorem packComponents_unpacked (b : Word) :
    packComponents Format.binary64 (Sign.ofBitVec (unpackSign b)) (unpackExponent b)
      (unpackMantissa b) = b := by
  apply BitVec.eq_of_toNat_eq
  rw [toNat_packComponents, toBitVec_ofBitVec, toNat_unpackSign, toNat_unpackExponent,
    toNat_unpackMantissa]
  have h : b.toNat < 2 ^ 64 := b.isLt
  omega

/-! ## Decoding and encoding -/

/-- What three fields stand for. -/
def decode (s : Sign) (e : BitVec 11) (m : BitVec 52) : UnpackedFloat :=
  unpack Format.binary64 (packComponents Format.binary64 s e m)

theorem unpack_eq_decode (b : Word) :
    unpack Format.binary64 b =
      decode (Sign.ofBitVec (unpackSign b)) (unpackExponent b) (unpackMantissa b) := by
  rw [decode, packComponents_unpacked]

theorem pack_subnormal (s : Sign) (m : BitVec 52) (hm : 0 < m.toNat) :
    pack Format.binary64 (.finite s m.toNat (-1074) hm) =
      packComponents Format.binary64 s 0#11 m := by
  have hlog : m.toNat.log2 < 52 := (Nat.log2_lt (by omega)).mpr m.isLt
  have hbits : ¬m.toNat.log2 + 1 = Format.binary64.mantissaBits := by
    simp [Format.mantissaBits]
    omega
  simp only [UnpackedFloat.pack, hbits, ↓reduceIte, BitVec.ofNat_toNat, BitVec.setWidth_eq]
  rfl

theorem pack_normal (s : Sign) (e : BitVec 11) (m : BitVec 52) (he : e ≠ -1#11)
    (hm : 0 < (1#1 ++ m).toNat) :
    pack Format.binary64 (.finite s (1#1 ++ m).toNat (e.toNat - 1075) hm) =
      packComponents Format.binary64 s e m := by
  have hmant : (1#1 ++ m).toNat = 2 ^ 52 + m.toNat := by
    rw [toNat_append]
    simp
  have hlt := m.isLt
  have hlog : (1#1 ++ m).toNat.log2 = 52 := by
    rw [Nat.log2_eq_iff (by omega)]
    omega
  have hbits : (1#1 ++ m).toNat.log2 + 1 = Format.binary64.mantissaBits := by
    rw [hlog]
    rfl
  have hsmall : ¬2048 ≤ e.toNat + 1 := by
    intro h
    apply he
    apply BitVec.eq_of_toNat_eq
    have := e.isLt
    simp
    omega
  have hbiased : ((e.toNat : Int) - 1075 + 1023 + 52).toNat = e.toNat := by omega
  show (if 2048 ≤ ((e.toNat : Int) - 1075 + 1023 + 52).toNat + 1 then _
    else if (1#1 ++ m).toNat.log2 + 1 = Format.binary64.mantissaBits then
      packComponents _ s (BitVec.ofNat _ ((e.toNat : Int) - 1075 + 1023 + 52).toNat) _
    else _) = _
  rw [hbiased, if_neg hsmall, if_pos hbits]
  congr 1
  · simp
  · apply BitVec.eq_of_toNat_eq
    rw [BitVec.toNat_ofNat, hmant]
    show (2 ^ 52 + m.toNat) % 2 ^ 52 = m.toNat
    omega

/-- Encoding gives the fields back, but for those of a NaN. -/
theorem pack_decode (s : Sign) (e : BitVec 11) (m : BitVec 52) (h : e = -1#11 → m = 0#52) :
    pack Format.binary64 (decode s e m) = packComponents Format.binary64 s e m := by
  unfold decode UnpackedFloat.unpack
  simp only [unpackMantissa_packComponents, unpackExponent_packComponents,
    unpackSign_packComponents, ofBitVec_toBitVec]
  split
  next he =>
    rw [if_pos (h he), he, h he]
    rfl
  next he =>
    split
    next hz =>
      split
      next hm =>
        rw [hz, hm]
        rfl
      next hm =>
        subst hz
        exact pack_subnormal s m _
    next hz => exact pack_normal s e m he _

theorem neg_decode (s : Sign) (e : BitVec 11) (m : BitVec 52) :
    (decode s e m).neg = decode (-s) e m := by
  unfold decode UnpackedFloat.unpack
  simp only [unpackMantissa_packComponents, unpackExponent_packComponents,
    unpackSign_packComponents, ofBitVec_toBitVec]
  split
  next => split <;> rfl
  next =>
    split
    next => split <;> rfl
    next => rfl

/-- A word with an exponent of all ones stands for a NaN, unless its mantissa is zero. -/
def IsNaN (b : Word) : Prop := unpackExponent b = -1#11 ∧ unpackMantissa b ≠ 0#52

theorem pack_unpack {b : Word} (h : ¬IsNaN b) :
    pack Format.binary64 (unpack Format.binary64 b) = b := by
  rw [unpack_eq_decode, pack_decode _ _ _ (by simpa [IsNaN] using h), packComponents_unpacked]

/-! ## Doubles -/

/-- The word of a double. -/
def word (x : Float) : Word := x.toBits.toBitVec

theorem word_injective {x y : Float} (h : word x = word y) : x = y := by
  obtain ⟨⟨b, hb⟩⟩ := x
  obtain ⟨⟨c, hc⟩⟩ := y
  congr 2
  exact UInt64.toBitVec_inj.mp h

theorem word_ofBits (b : UInt64) :
    word (Float.ofBits b) = pack Format.binary64 (unpack Format.binary64 b.toBitVec) := rfl

theorem word_neg (x : Float) :
    word (-x) = pack Format.binary64 (unpack Format.binary64 (word x)).neg := rfl

/-- All NaNs have one word. -/
theorem word_of_isNaN {x : Float} (h : IsNaN (word x)) : word x = packedNaN Format.binary64 :=
  x.toModel.valid.eq_packedNaN h.1 h.2

theorem ofBits_toBits (x : Float) : Float.ofBits x.toBits = x := by
  apply word_injective
  rw [word_ofBits]
  show pack _ (unpack _ (word x)) = word x
  by_cases h : IsNaN (word x)
  · rw [word_of_isNaN h]
    rfl
  · exact pack_unpack h

/-- Negation is an exact involution, on NaNs too. -/
theorem neg_neg (x : Float) : - -x = x := by
  apply word_injective
  rw [word_neg, word_neg]
  by_cases h : IsNaN (word x)
  · rw [word_of_isNaN h]
    rfl
  · have hs (s : Sign) : - -s = s := by cases s <;> rfl
    have hm : unpackExponent (word x) = -1#11 → unpackMantissa (word x) = 0#52 := by
      simpa [IsNaN] using h
    rw [unpack_eq_decode (word x), neg_decode, pack_decode _ _ _ hm]
    show pack _ (decode _ _ _).neg = _
    rw [neg_decode, hs, pack_decode _ _ _ hm, packComponents_unpacked]

/-! ## Finiteness -/

theorem exponent_eq_ones_iff (b : Word) :
    unpackExponent b = -1#11 ↔ Scaled.infinityBits ≤ b.toNat % 2 ^ 63 := by
  rw [← BitVec.toNat_inj, toNat_unpackExponent]
  show _ = 2047 ↔ 2047 * 2 ^ 52 ≤ _
  omega

theorem mantissa_eq_zero_iff (b : Word) : unpackMantissa b = 0#52 ↔ b.toNat % 2 ^ 52 = 0 := by
  rw [← BitVec.toNat_inj, toNat_unpackMantissa]
  rfl

/-- The word of a finite double or an infinity is that of the double it makes. -/
theorem toBits_ofBits {b : UInt64} (h : b.toNat % 2 ^ 63 ≤ Scaled.infinityBits) :
    (Float.ofBits b).toBits = b := by
  apply UInt64.toBitVec_inj.mp
  show word (Float.ofBits b) = b.toBitVec
  rw [word_ofBits]
  apply pack_unpack
  rintro ⟨he, hm⟩
  rw [exponent_eq_ones_iff] at he
  rw [ne_eq, mantissa_eq_zero_iff] at hm
  change 2047 * 2 ^ 52 ≤ b.toNat % 2 ^ 63 at he
  change b.toNat % 2 ^ 63 ≤ 2047 * 2 ^ 52 at h
  change ¬b.toNat % 2 ^ 52 = 0 at hm
  omega

theorem isFinite_iff (x : Float) :
    x.isFinite = true ↔ magnitudeBits x < Scaled.infinityBits := by
  show (unpack Format.binary64 (word x)).isFinite = true ↔
    (word x).toNat % 2 ^ 63 < Scaled.infinityBits
  rw [← Nat.not_le, ← exponent_eq_ones_iff]
  unfold UnpackedFloat.unpack
  dsimp only
  split
  next he => split <;> exact iff_of_false (by simp [UnpackedFloat.isFinite]) (not_not_intro he)
  next he =>
    split
    next => split <;> exact iff_of_true rfl he
    next => exact iff_of_true rfl he

theorem not_isNaN_of_isFinite {x : Float} (h : x.isFinite = true) : x.isNaN = false := by
  change (unpack Format.binary64 (word x)).isFinite = true at h
  show (unpack Format.binary64 (word x)).isNaN = false
  cases hu : unpack Format.binary64 (word x) <;>
    simp_all [UnpackedFloat.isFinite, UnpackedFloat.isNaN]

theorem not_isInf_of_isFinite {x : Float} (h : x.isFinite = true) : x.isInf = false := by
  change (unpack Format.binary64 (word x)).isFinite = true at h
  show (unpack Format.binary64 (word x)).isInf = false
  cases hu : unpack Format.binary64 (word x) <;>
    simp_all [UnpackedFloat.isFinite, UnpackedFloat.isInf]

/-- Without its sign bit set, a double is its magnitude. -/
theorem toNat_toBits_of_positive {x : Float} (h : signBit x = false) :
    x.toBits.toNat = magnitudeBits x := by
  have hb : ¬2 ^ 63 ≤ x.toBits.toNat := of_decide_eq_false h
  show x.toBits.toNat = x.toBits.toNat % 2 ^ 63
  omega

/-! ## Equality -/

theorem beq_iff (x y : Float) :
    (x == y) = true ↔
      (unpack Format.binary64 (word x)).compare (unpack Format.binary64 (word y)) = some .eq := by
  show (_ == some Ordering.eq) = true ↔ _
  rw [beq_iff_eq]
  rfl

/-- A NaN equals nothing, not even itself. -/
theorem not_isNaN_of_beq {x y : Float} (h : (x == y) = true) : x.isNaN = false := by
  rw [beq_iff] at h
  show (unpack Format.binary64 (word x)).isNaN = false
  cases hx : unpack Format.binary64 (word x) with
  | notANumber =>
    rw [hx] at h
    cases h
  | infinity | zero | finite => rfl

theorem beq_self_iff (x : Float) : (x == x) = true ↔ x.isNaN = false := by
  refine ⟨not_isNaN_of_beq, fun h => ?_⟩
  rw [beq_iff]
  change (unpack Format.binary64 (word x)).isNaN = false at h
  cases hx : unpack Format.binary64 (word x) with
  | notANumber =>
    rw [hx] at h
    cases h
  | infinity s => cases s <;> rfl
  | zero s => rfl
  | finite s mantissa exponent positive =>
    have hparts : (compare exponent exponent).then (compare mantissa mantissa) = .eq := by
      simp
    cases s with
    | positive => exact congrArg some hparts
    | negative => exact congrArg (fun o => some o.swap) hparts

end Isotherm.Bits
