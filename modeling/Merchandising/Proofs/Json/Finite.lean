/-
  Numbers that are read are finite doubles, or whole numbers that fit 64 bits.

  Doubles are reasoned about as they are defined, unpacked to a sign, a mantissa and an exponent.

  * `roundWithAccuracy_spec` is what rounding makes of a mantissa and an exponent; from it come a
    bound (`small_round`) and, for numbers that are not too small, the size of the mantissa
    (`normal_round`);
  * `isFinite_mul` and `isFinite_div`: a product is finite unless it is infinite, and so is a
    quotient by a power of ten;
  * `isFinite_float?` and `isFinite_roundInt`: what a numeral stands for is finite;
  * `sound_value?`: all numbers in the value of a text are finite or fit 64 bits, and the value nests
    no deeper than allowed.
-/
import Mathlib
import Merchandising.Json.Literal
import Merchandising.Json.Record
import Merchandising.Proofs.Json.RoundTrip

namespace Merchandising.Json

open Float.Model Float.Model.UnpackedFloat

/-! ## Packing and unpacking -/

/-- A number that is not too large for a double. -/
def Small : UnpackedFloat → Prop
  | .zero _ => True
  | .finite _ _ e _ => e ≤ 971
  | _ => False

theorem isFinite_unpack {b : BitVec Format.binary64.numBits}
    (h : unpackExponent b ≠ -1#_) : (UnpackedFloat.unpack Format.binary64 b).isFinite = true := by
  unfold UnpackedFloat.unpack
  simp only [h, ↓reduceIte]
  split
  · split <;> rfl
  · rfl

theorem isFinite_pack {u : UnpackedFloat} (hu : Small u) : (Float.Model.pack u).isFinite = true := by
  refine isFinite_unpack ?_
  show unpackExponent (UnpackedFloat.pack Format.binary64 u) ≠ -1#_
  match u, hu with
  | .zero s, _ => simp [UnpackedFloat.pack, packedZero]
  | .finite s m e hm, he =>
    have he : e ≤ 971 := he
    simp only [UnpackedFloat.pack]
    split
    · rename_i h
      exfalso
      simp [Format.exponentBias] at h
      omega
    · split
      · rename_i h _
        simp [Format.exponentBias] at h ⊢
        rw [← BitVec.toNat_inj]
        simp
        omega
      · simp

/-- What a finite double is unpacked to. -/
def Fits : UnpackedFloat → Prop
  | .zero _ => True
  | .finite _ m e _ => m < 2 ^ 53 ∧ e ≤ 971
  | _ => False

theorem fits_unpack {b : BitVec Format.binary64.numBits}
    (h : (UnpackedFloat.unpack Format.binary64 b).isFinite = true) :
    Fits (UnpackedFloat.unpack Format.binary64 b) := by
  unfold UnpackedFloat.unpack at h ⊢
  simp only at h ⊢
  split at h
  · split at h <;> simp [UnpackedFloat.isFinite] at h
  · rename_i hexp
    simp only [hexp, ↓reduceIte]
    split
    · split
      · trivial
      · refine ⟨?_, ?_⟩
        · have := (unpackMantissa b).isLt
          simp at this
          omega
        · have := (unpackExponent b).isLt
          simp [Format.exponentBias] at this ⊢
          simp_all
    · refine ⟨?_, ?_⟩
      · have := (1#1 ++ unpackMantissa b).isLt
        simpa using this
      · have := (unpackExponent b).isLt
        simp [Format.exponentBias] at this ⊢
        rw [← BitVec.toNat_inj] at hexp
        simp at hexp
        omega

/-! ## Rounding -/

/-- The exponent for a number with some mantissa and exponent. -/
abbrev target (m : Nat) (e : Int) : Int := Format.binary64.targetExponent (totalExponent m e)

theorem target_eq (m : Nat) (e : Int) : target m e = max (m.log2 + 1 + e - 53) (-1074) := by
  simp [target, Format.targetExponent, totalExponent, Format.mantissaBits, Format.minExponent]

theorem mantissa_shiftRight (em : ExtendedMantissa) (n : Nat) :
    (em >>> n).mantissa = em.mantissa / 2 ^ n := by
  show (n.repeat ExtendedMantissa.shiftRightOne em).mantissa = em.mantissa / 2 ^ n
  induction n with
  | zero => simp [Nat.repeat]
  | succ n ih =>
    rw [Nat.repeat, ExtendedMantissa.shiftRightOne, ih, Nat.div_div_eq_div_mul, Nat.pow_succ]

theorem mantissa_ofMantissaAndAccuracy (m : Nat) (acc : Accuracy) :
    (ExtendedMantissa.ofMantissaAndAccuracy m acc).mantissa = m := by
  cases acc with
  | exact => rfl
  | inexact o => cases o <;> rfl

theorem roundedMantissa_bounds (em : ExtendedMantissa) :
    em.mantissa ≤ em.roundedMantissa ∧ em.roundedMantissa ≤ em.mantissa + 1 := by
  unfold ExtendedMantissa.roundedMantissa
  cases em.accuracy with
  | exact => simp [Accuracy.roundToNearestEven]
  | inexact o =>
    cases o with
    | lt => simp [Accuracy.roundToNearestEven]
    | eq =>
      simp only [Accuracy.roundToNearestEven]
      omega
    | gt => simp [Accuracy.roundToNearestEven]

/-- Rounding shifts out the bits that do not fit, and once more if that made the mantissa longer. -/
theorem roundWithAccuracy_spec (s : Sign) (m : Nat) (e : Int) (acc : Accuracy) :
    ∃ k r k' : Nat, k = (target m e - e).toNat ∧ m / 2 ^ k ≤ r ∧ r ≤ m / 2 ^ k + 1 ∧
      k' = (target r (e + k) - (e + k)).toNat ∧
      roundWithAccuracy Format.binary64 s m e acc =
        if h : r / 2 ^ k' = 0 then .zero s
        else .finite s (r / 2 ^ k') (e + k + k') (Nat.pos_of_ne_zero h) := by
  have hb := roundedMantissa_bounds
    (ExtendedMantissa.ofMantissaAndAccuracy m acc >>> (target m e - e).toNat)
  rw [mantissa_shiftRight, mantissa_ofMantissaAndAccuracy] at hb
  refine ⟨_, _, _, rfl, hb.1, hb.2, rfl, ?_⟩
  unfold roundWithAccuracy shiftToTargetExponent shiftToExponent
  simp only [mantissa_shiftRight, mantissa_ofMantissaAndAccuracy]

theorem log2_le_of_le_pow {r n : Nat} (h : r ≤ 2 ^ n) : r.log2 ≤ n := by
  by_cases hr : r = 0
  · subst hr
    simp
  · have hlt : r < 2 ^ (n + 1) := Nat.lt_of_le_of_lt h (Nat.pow_lt_pow_right (by omega) (by omega))
    have := (Nat.log2_lt hr).2 hlt
    omega

theorem log2_le_of_le_div {m r k : Nat} (hr : r ≤ m / 2 ^ k + 1) : r.log2 ≤ m.log2 + 1 - k := by
  have hlt : m < 2 ^ (m.log2 + 1) := Nat.lt_log2_self
  have hdiv : m / 2 ^ k < 2 ^ (m.log2 + 1 - k) := by
    rw [Nat.div_lt_iff_lt_mul (Nat.two_pow_pos k), ← Nat.pow_add]
    exact Nat.lt_of_lt_of_le hlt (Nat.pow_le_pow_right (by omega) (by omega))
  exact log2_le_of_le_pow (by omega)

/-- Rounding a number below `2 ^ 1023` makes no exponent too large for a double. -/
theorem small_round (s : Sign) {m : Nat} {e : Int} (acc : Accuracy) (he : e ≤ 971)
    (hm : m.log2 + 1 + e ≤ 1023) : Small (roundWithAccuracy Format.binary64 s m e acc) := by
  obtain ⟨k, r, k', hk, -, hr, hk', h⟩ := roundWithAccuracy_spec s m e acc
  rw [h]
  split
  · trivial
  · have hlog := log2_le_of_le_div hr
    show e + k + k' ≤ 971
    rw [target_eq] at hk hk'
    omega

theorem log2_div_pow {m k : Nat} (hm : m ≠ 0) (hk : k ≤ m.log2) : (m / 2 ^ k).log2 = m.log2 - k := by
  have hpos : m / 2 ^ k ≠ 0 := by
    have hle : 2 ^ k ≤ m :=
      Nat.le_trans (Nat.pow_le_pow_right (by omega) hk) (Nat.log2_self_le hm)
    exact Nat.ne_of_gt (Nat.div_pos hle (Nat.two_pow_pos k))
  rw [Nat.log2_eq_iff hpos, Nat.le_div_iff_mul_le (Nat.two_pow_pos k),
    Nat.div_lt_iff_lt_mul (Nat.two_pow_pos k), ← Nat.pow_add, ← Nat.pow_add]
  have h1 : m.log2 - k + k = m.log2 := by omega
  have h2 : m.log2 - k + 1 + k = m.log2 + 1 := by omega
  rw [h1, h2]
  exact ⟨Nat.log2_self_le hm, Nat.lt_log2_self⟩

/-- Rounding a number between `2 ^ 4` and `2 ^ 1023` makes a mantissa of 53 bits, and no smaller
    number. -/
theorem normal_round (s : Sign) {m : Nat} {e : Int} (acc : Accuracy) (hbits : 52 ≤ m.log2)
    (hlow : 4 ≤ m.log2 + 1 + e) (hhigh : m.log2 + 1 + e ≤ 1023) :
    ∃ m' e' h, roundWithAccuracy Format.binary64 s m e acc = .finite s m' e' h ∧ m'.log2 = 52 ∧
      -49 ≤ e' ∧ e' ≤ 971 := by
  have hm : m ≠ 0 := by
    rintro rfl
    simp at hbits
  obtain ⟨k, r, k', hk, hr, hr', hk', h⟩ := roundWithAccuracy_spec s m e acc
  have hlog := log2_le_of_le_div hr'
  have hklog : k = m.log2 - 52 := by
    rw [target_eq] at hk
    omega
  have hdiv : (m / 2 ^ k).log2 = 52 := by
    rw [log2_div_pow hm (by omega)]
    omega
  have hdiv0 : m / 2 ^ k ≠ 0 := by
    intro h
    simp [h] at hdiv
  have hr0 : r ≠ 0 := fun h => hdiv0 (Nat.le_zero.1 (h ▸ hr))
  have hrlog : 52 ≤ r.log2 := by
    rw [Nat.le_log2 hr0, ← hdiv]
    exact Nat.le_trans (Nat.log2_self_le hdiv0) hr
  have hk'log : k' = r.log2 - 52 := by
    rw [target_eq] at hk'
    omega
  have hlog' : (r / 2 ^ k').log2 = 52 := by
    rw [log2_div_pow hr0 (by omega)]
    omega
  have hne : r / 2 ^ k' ≠ 0 := by
    intro h
    simp [h] at hlog'
  rw [dif_neg hne] at h
  exact ⟨_, _, _, h, hlog', by omega, by omega⟩

/-- A mantissa of 53 bits stays one, under the same exponent. -/
theorem unpack_pack {s : Sign} {m : Nat} {e : Int} (hm : 0 < m) (hlog : m.log2 = 52)
    (hlow : -1074 ≤ e) (hhigh : e ≤ 971) :
    ∃ s' m' h, (Float.Model.pack (.finite s m e hm)).unpack = .finite s' m' e h ∧ m'.log2 = 52 := by
  have hpack : UnpackedFloat.pack Format.binary64 (.finite s m e hm) =
      packComponents Format.binary64 s (BitVec.ofNat 11 (e + 1075).toNat) (BitVec.ofNat 52 m) := by
    have hbits : m.log2 + 1 = Format.binary64.mantissaBits := by simp [hlog, Format.mantissaBits]
    have hsum : e + (Format.binary64.exponentBias : Int) + (52 : Nat) = e + 1075 := by
      simp [Format.exponentBias]
      omega
    simp only [UnpackedFloat.pack, hsum, hbits, ↓reduceIte]
    rw [if_neg (by omega)]
  have hexp : (BitVec.ofNat 11 (e + 1075).toNat).toNat = (e + 1075).toNat := by
    simp
    omega
  have hne : BitVec.ofNat 11 (e + 1075).toNat ≠ -1#11 := by
    rw [ne_eq, ← BitVec.toNat_inj, hexp]
    simp
    omega
  have hne' : BitVec.ofNat 11 (e + 1075).toNat ≠ 0#11 := by
    rw [ne_eq, ← BitVec.toNat_inj, hexp]
    simp
    omega
  show ∃ s' m' h, UnpackedFloat.unpack Format.binary64 (UnpackedFloat.pack Format.binary64
    (.finite s m e hm)) = .finite s' m' e h ∧ m'.log2 = 52
  rw [hpack]
  unfold UnpackedFloat.unpack
  simp only [unpackExponent_packComponents, unpackMantissa_packComponents, hne, hne', ↓reduceIte]
  have he : ((BitVec.ofNat 11 (e + 1075).toNat).toNat : Int) -
      ((Format.binary64.exponentBias : Int) + (52 : Nat)) = e := by
    rw [hexp]
    simp [Format.exponentBias]
    omega
  have hlt : (1#1 ++ BitVec.ofNat 52 m).toNat < 2 ^ 53 := (1#1 ++ BitVec.ofNat 52 m).isLt
  have hle : 2 ^ 52 ≤ (1#1 ++ BitVec.ofNat 52 m).toNat := by
    rw [BitVec.toNat_append]
    exact Nat.left_le_or
  rw [he]
  exact ⟨_, _, by omega, rfl, (Nat.log2_eq_iff (by omega)).2 ⟨hle, hlt⟩⟩

/-! ## Powers of ten -/

/-- Whether a double is finite and no less than `2 ^ 3`. -/
def isLarge (x : Float) : Bool :=
  match x.toModel.unpack with
  | .finite _ m e _ => 4 ≤ m.log2 + 1 + e
  | _ => false

theorem isFinite_of_isLarge {x : Float} (hx : isLarge x = true) : x.isFinite = true := by
  unfold isLarge at hx
  show x.toModel.unpack.isFinite = true
  cases h : x.toModel.unpack <;> simp [h] at hx
  rfl

theorem log2_shiftLeft {m : Nat} (hm : m ≠ 0) (k : Nat) : (m <<< k).log2 = m.log2 + k := by
  induction k with
  | zero => simp
  | succ k ih =>
    have hk : m <<< k ≠ 0 := by simpa using hm
    rw [Nat.shiftLeft_succ, Nat.log2_two_mul hk, ih]
    omega

theorem log2_pow_ten {k : Nat} (hk : 1 ≤ k) :
    3 ≤ (10 ^ k).log2 ∧ (10 ^ k).log2 ≤ 10 * (k / 3 + 1) := by
  have hpos : 10 ^ k ≠ 0 := Nat.ne_of_gt (Nat.pow_pos (by decide))
  have hlow : 10 ^ 1 ≤ 10 ^ k := Nat.pow_le_pow_right (by decide) hk
  have hhigh : 10 ^ k ≤ 2 ^ (10 * (k / 3 + 1)) :=
    calc 10 ^ k ≤ 10 ^ (3 * (k / 3 + 1)) := Nat.pow_le_pow_right (by decide) (by omega)
      _ = (10 ^ 3) ^ (k / 3 + 1) := Nat.pow_mul ..
      _ ≤ (2 ^ 10) ^ (k / 3 + 1) := Nat.pow_le_pow_left (by decide) _
      _ = 2 ^ (10 * (k / 3 + 1)) := (Nat.pow_mul ..).symm
  exact ⟨(Nat.le_log2 hpos).2 (Nat.le_trans (by decide) hlow), log2_le_of_le_pow hhigh⟩

/-- Powers of ten that fit doubles are finite, and large but for the first one. -/
theorem isLarge_powerOfTen {k : Nat} (h1 : 1 ≤ k) (h2 : k ≤ 308) :
    isLarge (Numeral.powerOfTen k) = true := by
  have hlow : ∀ k < 22, isLarge (Numeral.powerOfTen (k + 1)) = true := by decide +kernel
  have hhigh : ∀ k < 8, isLarge (Numeral.powerOfTen (k + 301)) = true := by decide +kernel
  rcases Nat.lt_or_ge k 23 with hk | hk
  · have h := hlow (k - 1) (by omega)
    rwa [Nat.sub_add_cancel h1] at h
  rcases Nat.lt_or_ge k 301 with hk' | hk'
  · obtain ⟨hlog, hlog'⟩ := log2_pow_ten h1
    have hten : 10 ^ k ≠ 0 := Nat.ne_of_gt (Nat.pow_pos (by decide))
    have hshift : (1 <<< 53 * 10 ^ k).log2 = (10 ^ k).log2 + 53 := by
      rw [Nat.one_shiftLeft, Nat.mul_comm, ← Nat.shiftLeft_eq, log2_shiftLeft hten]
    obtain ⟨m', e', h', hround, hm', he', he''⟩ := @normal_round .positive (1 <<< 53 * 10 ^ k)
      (-53) .exact (by omega) (by omega) (by omega)
    obtain ⟨s'', m'', h'', hunpack, hm''⟩ := @unpack_pack .positive m' e' h' hm' (by omega) he''
    have hvalue : (Numeral.powerOfTen k).toModel.unpack = .finite s'' m'' e' h'' := by
      rw [← hunpack, ← hround]
      unfold Numeral.powerOfTen Float.ofScientific
      rw [dif_neg (by omega)]
      show (Float.Model.pack (UnpackedFloat.ofScientific Format.binary64 1 k)).unpack = _
      unfold UnpackedFloat.ofScientific
      rw [dif_neg (by decide), if_neg, if_neg, if_pos (by omega)]
      · simp only [UnpackedFloat.mul, Format.mantissaBits]
        rfl
      · show ¬ (k : Int) < -(2 ^ 11 + (Nat.log2 1 : Int))
        omega
      · show ¬ (k : Int) > 2 ^ 11
        omega
    simp only [isLarge, hvalue, decide_eq_true_eq]
    omega
  · have h := hhigh (k - 301) (by omega)
    rwa [Nat.sub_add_cancel hk'] at h

/-! ## Arithmetic -/

theorem isFinite_of_small {x : Float} {u : UnpackedFloat} (hx : x.toModel = Float.Model.pack u)
    (hu : Small u) : x.isFinite = true := by
  show x.toModel.isFinite = true
  rw [hx]
  exact isFinite_pack hu

theorem fits_of_isFinite {x : Float} (hx : x.isFinite = true) : Fits x.toModel.unpack :=
  fits_unpack hx

theorem small_of_fits {u : UnpackedFloat} (hu : Fits u) : Small u := by
  cases u with
  | finite s m e h => exact hu.2
  | _ => exact hu

theorem isFinite_neg {x : Float} (hx : x.isFinite = true) : (-x).isFinite = true := by
  refine isFinite_of_small (u := x.toModel.unpack.neg) rfl ?_
  have h := small_of_fits (fits_of_isFinite hx)
  cases hu : x.toModel.unpack with
  | finite s m e hm =>
    rw [hu] at h
    exact h
  | zero s => trivial
  | _ => simp [hu, Small] at h

theorem isFinite_roundNat (n : Nat) : (Numeral.roundNat n).isFinite = true := by
  refine isFinite_of_small (u := UnpackedFloat.ofNat Format.binary64 (UInt64.ofNat n).toNat) rfl ?_
  have hlt : (UInt64.ofNat n).toNat < 2 ^ 64 := (UInt64.ofNat n).toNat_lt
  generalize (UInt64.ofNat n).toNat = k at hlt
  unfold UnpackedFloat.ofNat UnpackedFloat.ofInt UnpackedFloat.normalize
  split
  · rename_i h
    have := Int.compare_eq_lt.1 h
    omega
  · trivial
  · rename_i h
    have hk : k ≠ 0 := by
      have := Int.compare_eq_gt.1 h
      omega
    have hlog : k.log2 < 64 := (Nat.log2_lt hk).2 hlt
    unfold UnpackedFloat.round decreaseExponent
    have htarget := target_eq k 0
    refine small_round _ _ ?_ ?_
    · simp only [Int.toNat_natCast]
      omega
    · simp only [Int.toNat_natCast, log2_shiftLeft hk]
      rw [target] at htarget
      omega

/-- Rounding makes zero or a number. -/
theorem round_cases (s : Sign) (m : Nat) (e : Int) (acc : Accuracy) :
    (∃ s', roundWithAccuracy Format.binary64 s m e acc = .zero s') ∨
      ∃ s' m' e' h, roundWithAccuracy Format.binary64 s m e acc = .finite s' m' e' h := by
  obtain ⟨k, r, k', -, -, -, -, h⟩ := roundWithAccuracy_spec s m e acc
  rw [h]
  split
  · exact Or.inl ⟨_, rfl⟩
  · exact Or.inr ⟨_, _, _, Nat.pos_of_ne_zero ‹_›, rfl⟩

/-- A number is packed to a finite double or to an infinite one. -/
theorem isInf_pack {s : Sign} {m : Nat} {e : Int} {h : 0 < m} (he : 971 < e) :
    (Float.Model.pack (.finite s m e h)).isInf = true := by
  have hpack : UnpackedFloat.pack Format.binary64 (.finite s m e h) =
      packedInfinity Format.binary64 s := by
    simp only [UnpackedFloat.pack]
    rw [if_pos]
    simp [Format.exponentBias]
    omega
  show (UnpackedFloat.unpack Format.binary64 (UnpackedFloat.pack Format.binary64
    (.finite s m e h))).isInf = true
  rw [hpack]
  unfold UnpackedFloat.unpack packedInfinity
  simp [UnpackedFloat.isInf]

theorem isFinite_round {x : Float} {s : Sign} {m : Nat} {e : Int} {acc : Accuracy}
    (hx : x.toModel = Float.Model.pack (roundWithAccuracy Format.binary64 s m e acc))
    (hinf : x.isInf = false) : x.isFinite = true := by
  rcases round_cases s m e acc with ⟨s', h⟩ | ⟨s', m', e', hm', h⟩
  · exact isFinite_of_small hx (h ▸ trivial)
  · refine isFinite_of_small hx (h ▸ ?_)
    refine Int.not_lt.1 fun he => ?_
    have hpack : x.toModel.isInf = true := by
      rw [hx, h]
      exact isInf_pack he
    exact absurd (hpack.symm.trans hinf) nofun

/-- The product of finite doubles is finite unless it is infinite. -/
theorem isFinite_mul {x y : Float} (hx : x.isFinite = true) (hy : y.isFinite = true)
    (hinf : (x * y).isInf = false) : (x * y).isFinite = true := by
  have hxy : (x * y).toModel =
      Float.Model.pack (UnpackedFloat.mul Format.binary64 x.toModel.unpack y.toModel.unpack) := rfl
  have hx := fits_of_isFinite hx
  have hy := fits_of_isFinite hy
  generalize x.toModel.unpack = u at *
  generalize y.toModel.unpack = v at *
  match u, v, hx, hy with
  | .zero s, .zero s', _, _ => exact isFinite_of_small hxy trivial
  | .zero s, .finite s' m e h, _, _ => exact isFinite_of_small hxy trivial
  | .finite s m e h, .zero s', _, _ => exact isFinite_of_small hxy trivial
  | .finite s m e h, .finite s' m' e' h', _, _ => exact isFinite_round hxy hinf

/-- The quotient of a finite double by a large one is finite. -/
theorem isFinite_div {x y : Float} (hx : x.isFinite = true) (hy : isLarge y = true) :
    (x / y).isFinite = true := by
  have hxy : (x / y).toModel =
      Float.Model.pack (UnpackedFloat.div Format.binary64 x.toModel.unpack y.toModel.unpack) := rfl
  have hx := fits_of_isFinite hx
  unfold isLarge at hy
  generalize x.toModel.unpack = u at *
  generalize y.toModel.unpack = v at *
  match v, hy with
  | .finite s' m' e' h', hy =>
    have hy : 4 ≤ m'.log2 + 1 + e' := by simpa using hy
    match u, hx with
    | .zero s, _ => exact isFinite_of_small hxy trivial
    | .finite s m e h, hx =>
      refine isFinite_of_small hxy ?_
      obtain ⟨hm, he⟩ := hx
      have hlog : m.log2 < 53 := (Nat.log2_lt (by omega)).2 hm
      have hlog' : 2 ^ m'.log2 ≤ m' := Nat.log2_self_le (by omega)
      unfold UnpackedFloat.div divCore
      simp only [Format.targetExponent, totalExponent, Format.mantissaBits, Format.minExponent]
      generalize hsh : (e - e' - min (e - e') (max ((m.log2 : Int) + 1 + e - (m'.log2 + 1 + e') -
        ((1 + 52 : Nat) : Int)) (3 - 2 ^ (11 - 1) - ((1 + 52 : Nat) : Int)))).toNat = sh
      have hquot : (m <<< sh / m').log2 ≤ m.log2 + sh + 1 - m'.log2 := by
        rw [← log2_shiftLeft (Nat.ne_of_gt h)]
        refine log2_le_of_le_div (Nat.le_succ_of_le ?_)
        exact Nat.div_le_div_left hlog' (Nat.two_pow_pos _)
      refine small_round _ _ ?_ ?_
      · omega
      · omega

/-! ## Numerals -/

theorem isFinite_powerOfTen {k : Nat} (hk : k ≤ 308) : (Numeral.powerOfTen k).isFinite = true := by
  cases k with
  | zero => decide +kernel
  | succ k => exact isFinite_of_isLarge (isLarge_powerOfTen (by omega) hk)

theorem isFinite_scale? {x y : Float} {e : Int} (hx : x.isFinite = true)
    (h : Numeral.scale? x e = some y) : y.isFinite = true := by
  induction x, e using Numeral.scale?.induct generalizing y with
  | case1 x e he h0 =>
    rename_i hinf
    simp [Numeral.scale?, he, h0] at h
    exact absurd (h.1.symm.trans hinf) nofun
  | case2 x e he h0 =>
    simp [Numeral.scale?, he, h0] at h
    obtain ⟨hinf, rfl⟩ := h
    exact isFinite_mul hx (isFinite_powerOfTen (by omega)) hinf
  | case3 x e he h0 =>
    simp [Numeral.scale?, he, h0] at h
    subst h
    exact isFinite_div hx (isLarge_powerOfTen (by omega) he)
  | case4 x e he h0 =>
    simp [Numeral.scale?, he, h0] at h
    subst h
    exact hx
  | case5 x e he h0 h1 =>
    simp [Numeral.scale?, he, h0, h1] at h
  | case6 x e he h0 h1 ih =>
    rw [Numeral.scale?] at h
    simp only [he, h0, h1] at h
    exact ih (isFinite_div hx (isLarge_powerOfTen (by decide) (by decide))) h

/-- **Numbers that are read are finite.** -/
theorem isFinite_float? {n : Numeral} {x : Float} (h : n.float? = some x) : x.isFinite = true := by
  obtain ⟨y, hy, rfl⟩ := Option.map_eq_some_iff.1 h
  have hfin := isFinite_scale? (isFinite_roundNat _) hy
  split
  · exact isFinite_neg hfin
  · exact hfin

theorem isFinite_roundInt (n : Int) : (roundInt n).isFinite = true := by
  unfold roundInt
  split
  · exact isFinite_neg (isFinite_roundNat _)
  · exact isFinite_roundNat _

/-! ## Values -/

/-- A double that is finite, or a whole number that fits 64 bits. -/
def IsSound : Json → Prop
  | .int n => Int64.minValue.toInt ≤ n ∧ n < UInt64.size
  | .float x => x.isFinite = true
  | _ => False

theorem isSound_natural {n : Nat} (h : n < UInt64.size) : IsSound (.int n) :=
  ⟨Int.le_trans (by decide) (Int.natCast_nonneg n), Int.ofNat_lt.2 h⟩

theorem sound_numeral {n : Numeral} {j : Json} (h : n.value? = some j) :
    j.depth = 0 ∧ ∀ m ∈ j.numbers, IsSound m := by
  unfold Numeral.value? at h
  simp only at h
  split at h
  · rename_i hn
    simp only [Bool.and_eq_true, decide_eq_true_eq] at hn
    obtain rfl := Option.some.inj h
    exact ⟨rfl, List.forall_mem_singleton.2 (isSound_natural hn.2)⟩
  · split at h
    · rename_i hn
      simp only [Bool.and_eq_true, decide_eq_true_eq] at hn
      obtain rfl := Option.some.inj h
      have hnonpos : -(Text.ofDigits n.whole : Int) ≤ 0 := by omega
      exact ⟨rfl, List.forall_mem_singleton.2 ⟨hn.2, Int.lt_of_le_of_lt hnonpos (by decide)⟩⟩
    · obtain ⟨x, hx, rfl⟩ := Option.map_eq_some_iff.1 h
      refine ⟨rfl, ?_⟩
      simpa [numbers, IsSound] using isFinite_float? hx

mutual

/-- **All numbers in the value of a tree are sound, and it nests no deeper than allowed.** -/
theorem sound_value? : ∀ (depth : Nat) (l : Literal) {j : Json}, l.value? depth = some j →
    j.depth ≤ depth ∧ ∀ n ∈ j.numbers, IsSound n
  | d, .null, j, h => by
    rw [Literal.value?, Option.some.injEq] at h
    subst h
    simp [depth, numbers]
  | d, .bool b, j, h => by
    rw [Literal.value?, Option.some.injEq] at h
    subst h
    simp [depth, numbers]
  | d, .number n, j, h => by
    rw [Literal.value?] at h
    obtain ⟨hdepth, hsound⟩ := sound_numeral h
    exact ⟨by omega, hsound⟩
  | d, .quoted s, j, h => by
    rw [Literal.value?] at h
    obtain ⟨s, -, rfl⟩ := Option.map_eq_some_iff.1 h
    simp [depth, numbers]
  | 0, .list items, j, h => by simp [Literal.value?] at h
  | d + 1, .list items, j, h => by
    rw [Literal.value?] at h
    obtain ⟨js, hjs, rfl⟩ := Option.map_eq_some_iff.1 h
    obtain ⟨hdepth, hsound⟩ := sound_values? d items hjs
    exact ⟨by rw [depth]; omega, hsound⟩
  | 0, .record members, j, h => by simp [Literal.value?] at h
  | d + 1, .record members, j, h => by
    rw [Literal.value?] at h
    obtain ⟨js, hjs, rfl⟩ := Option.map_eq_some_iff.1 h
    obtain ⟨hdepth, hsound⟩ := sound_memberValues? d members hjs
    exact ⟨by rw [depth]; omega, hsound⟩

theorem sound_values? : ∀ (depth : Nat) (ls : List Literal) {js : List Json},
    Literal.values? depth ls = some js →
    listDepth js ≤ depth ∧ ∀ n ∈ listNumbers js, IsSound n
  | d, [], js, h => by
    rw [Literal.values?, Option.some.injEq] at h
    subst h
    simp [listDepth, listNumbers]
  | d, l :: ls, js, h => by
    rw [Literal.values?] at h
    obtain ⟨j, hj, h⟩ := Option.bind_eq_some_iff.1 h
    obtain ⟨r, hr, h⟩ := Option.bind_eq_some_iff.1 h
    obtain rfl := Option.some.inj h
    obtain ⟨hdepth, hsound⟩ := sound_value? d l hj
    obtain ⟨hdepth', hsound'⟩ := sound_values? d ls hr
    refine ⟨by rw [listDepth]; omega, fun n hn => ?_⟩
    exact (List.mem_append.1 hn).elim (hsound n) (hsound' n)

theorem sound_memberValues? : ∀ (depth : Nat) (ls : List (Option String × Literal))
    {js : List (String × Json)}, Literal.memberValues? depth ls = some js →
    membersDepth js ≤ depth ∧ ∀ n ∈ membersNumbers js, IsSound n
  | d, [], js, h => by
    rw [Literal.memberValues?, Option.some.injEq] at h
    subst h
    simp [membersDepth, membersNumbers]
  | d, (key, l) :: ls, js, h => by
    rw [Literal.memberValues?] at h
    obtain ⟨k, -, h⟩ := Option.bind_eq_some_iff.1 h
    obtain ⟨j, hj, h⟩ := Option.bind_eq_some_iff.1 h
    obtain ⟨r, hr, h⟩ := Option.bind_eq_some_iff.1 h
    obtain rfl := Option.some.inj h
    obtain ⟨hdepth, hsound⟩ := sound_value? d l hj
    obtain ⟨hdepth', hsound'⟩ := sound_memberValues? d ls hr
    refine ⟨by rw [membersDepth]; omega, fun n hn => ?_⟩
    exact (List.mem_append.1 hn).elim (hsound n) (hsound' n)

end

end Merchandising.Json
