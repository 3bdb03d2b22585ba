import ModuleRecovery.Proofs.Score.Order

/-!
# Rounding of doubles

Two facts about the arithmetic of doubles are needed.  The sign of a result is
decided before it is rounded, and rounding never makes a number out of range of
the order.  As long as a result stays away from the two ends of the exponents, it
is a normal number: its mantissa has exactly 53 bits, and its exponent is off by
at most one from the one that the leading bit calls for.
-/

namespace ModuleRecovery.Double

open Float.Model Float.Model.UnpackedFloat

/-! ## Signs -/

/-- Zero, a positive number or infinity, with the positive sign. -/
def Nonneg : UnpackedFloat → Prop
  | .infinity s => s = .positive
  | .notANumber => False
  | .zero s => s = .positive
  | .finite s _ _ _ => s = .positive

theorem ne_notANumber_of_nonneg {x : UnpackedFloat} (h : Nonneg x) :
    x ≠ .notANumber := by
  rintro rfl
  exact h

theorem nonneg_unpack_packComponents (exponent : BitVec 11)
    (mantissa : BitVec 52) (hexponent : exponent ≠ -1#11) :
    Nonneg (UnpackedFloat.unpack Format.binary64
      (packComponents Format.binary64 .positive exponent mantissa)) := by
  unfold UnpackedFloat.unpack
  simp only [unpackExponent_packComponents, unpackMantissa_packComponents,
    unpackSign_packComponents, Sign.ofBitVec_toBitVec]
  rw [if_neg hexponent]
  split
  · split <;> rfl
  · rfl

theorem nonneg_unpack_pack {x : UnpackedFloat} (h : Nonneg x) :
    Nonneg (Float.Model.pack x).unpack := by
  unfold Float.Model.pack Float.Model.unpack
  cases x with
  | notANumber => exact h.elim
  | infinity s =>
      cases h
      exact rfl
  | zero s =>
      cases h
      exact rfl
  | finite s m e hm =>
      cases h
      change Nonneg (UnpackedFloat.unpack Format.binary64
        (UnpackedFloat.pack Format.binary64 (.finite .positive m e hm)))
      unfold UnpackedFloat.pack
      dsimp only
      split
      · exact rfl
      · rename_i hrange
        split
        · apply nonneg_unpack_packComponents
          intro heq
          have hvalue := congrArg BitVec.toNat heq
          simp at hvalue
          omega
        · apply nonneg_unpack_packComponents
          decide

theorem nonneg_roundWithAccuracy (m : ℕ) (e : ℤ) (acc : Accuracy) :
    Nonneg (roundWithAccuracy Format.binary64 .positive m e acc) := by
  unfold roundWithAccuracy
  dsimp only
  split <;> exact rfl

theorem nonneg_normalize {mantissa : ℤ} (hmantissa : 0 ≤ mantissa) (e : ℤ) :
    Nonneg (UnpackedFloat.normalize Format.binary64 mantissa e .positive) := by
  unfold UnpackedFloat.normalize
  split
  · rename_i hneg
    rw [compare_lt_iff_lt] at hneg
    omega
  · exact rfl
  · exact nonneg_roundWithAccuracy _ _ _

theorem nonneg_add {x y : UnpackedFloat} (hx : Nonneg x) (hy : Nonneg y) :
    Nonneg (UnpackedFloat.add Format.binary64 x y) := by
  cases x with
  | notANumber => exact hx.elim
  | infinity s =>
      cases hx
      cases y with
      | notANumber => exact hy.elim
      | infinity t =>
          cases hy
          exact rfl
      | zero t => exact rfl
      | finite t m e hm => exact rfl
  | zero s =>
      cases hx
      cases y with
      | notANumber => exact hy.elim
      | infinity t => exact hy
      | zero t =>
          cases hy
          exact rfl
      | finite t m e hm => exact hy
  | finite s m e hm =>
      cases hx
      cases y with
      | notANumber => exact hy.elim
      | infinity t => exact hy
      | zero t => exact rfl
      | finite t n f hn =>
          cases hy
          unfold UnpackedFloat.add
          apply nonneg_normalize
          simp only [Sign.apply]
          positivity

theorem nonneg_div {x y : UnpackedFloat} (hx : Nonneg x) {m : ℕ} {e : ℤ}
    {hm : 0 < m} (hy : y = .finite .positive m e hm) :
    Nonneg (UnpackedFloat.div Format.binary64 x y) := by
  subst hy
  cases x with
  | notANumber => exact hx.elim
  | infinity s =>
      cases hx
      exact rfl
  | zero s =>
      cases hx
      exact rfl
  | finite s n f hn =>
      cases hx
      exact nonneg_roundWithAccuracy _ _ _

/-! ## Normal results -/

/-- A number of the given sign whose mantissa has 53 bits and whose exponent lies
in the given range. -/
def NormalIn (s : Sign) (low high : ℤ) : UnpackedFloat → Prop
  | .finite t m e _ => t = s ∧ 2 ^ 52 ≤ m ∧ m < 2 ^ 53 ∧ low ≤ e ∧ e ≤ high
  | _ => False

theorem NormalIn.exists_eq {s : Sign} {low high : ℤ} {x : UnpackedFloat}
    (h : NormalIn s low high x) :
    ∃ m e, ∃ hm : 0 < m, x = .finite s m e hm ∧ 2 ^ 52 ≤ m ∧ m < 2 ^ 53 ∧
      low ≤ e ∧ e ≤ high := by
  cases x with
  | notANumber => exact h.elim
  | infinity t => exact h.elim
  | zero t => exact h.elim
  | finite t m e hm =>
      obtain ⟨rfl, hbounds⟩ := h
      exact ⟨m, e, hm, rfl, hbounds⟩

theorem NormalIn.ne_notANumber {s : Sign} {low high : ℤ}
    {x : UnpackedFloat} (h : NormalIn s low high x) : x ≠ .notANumber := by
  rintro rfl
  exact h

theorem NormalIn.mono {s : Sign} {low high low' high' : ℤ}
    {x : UnpackedFloat} (h : NormalIn s low high x) (hlow : low' ≤ low)
    (hhigh : high ≤ high') : NormalIn s low' high' x := by
  obtain ⟨m, e, hm, rfl, hmLow, hmHigh, heLow, heHigh⟩ := h.exists_eq
  exact ⟨rfl, hmLow, hmHigh, hlow.trans heLow, heHigh.trans hhigh⟩

theorem mantissa_shiftRight (em : ExtendedMantissa) (k : ℕ) :
    (em >>> k).mantissa = em.mantissa / 2 ^ k := by
  induction k with
  | zero => simp [HShiftRight.hShiftRight, Nat.repeat]
  | succ k ih =>
      calc
        (em >>> (k + 1)).mantissa = (em >>> k).mantissa / 2 := rfl
        _ = em.mantissa / 2 ^ (k + 1) := by
          rw [ih, Nat.div_div_eq_div_mul, pow_succ]

theorem mantissa_ofMantissaAndAccuracy (m : ℕ) (acc : Accuracy) :
    (ExtendedMantissa.ofMantissaAndAccuracy m acc).mantissa = m := by
  cases acc with
  | exact => rfl
  | inexact ordering => cases ordering <;> rfl

theorem roundedMantissa_mem (em : ExtendedMantissa) :
    em.roundedMantissa = em.mantissa ∨
      em.roundedMantissa = em.mantissa + 1 := by
  obtain ⟨m, roundBit, stickyBit⟩ := em
  cases roundBit with
  | false => cases stickyBit <;> exact Or.inl rfl
  | true =>
      cases stickyBit with
      | true => exact Or.inr rfl
      | false =>
          change m + m % 2 = m ∨ m + m % 2 = m + 1
          omega

theorem shiftToTargetExponent_of_log2 {m k : ℕ} {e : ℤ} (acc : Accuracy)
    (hlog : m.log2 = 52 + k) (he : -1074 ≤ e + k) :
    shiftToTargetExponent Format.binary64 m e acc =
      (ExtendedMantissa.ofMantissaAndAccuracy m acc >>> k, e + k) := by
  have htarget :
      Format.binary64.targetExponent (totalExponent m e) = e + k := by
    simp only [Format.targetExponent, totalExponent, Format.mantissaBits,
      Format.minExponent, hlog]
    push_cast
    omega
  have hshift : (e + k - e).toNat = k := by omega
  unfold shiftToTargetExponent shiftToExponent
  dsimp only
  rw [htarget, hshift]

theorem log2_eq_of_bounds {m k : ℕ} (hlow : 2 ^ k ≤ m) (hhigh : m < 2 ^ (k + 1)) :
    m.log2 = k := by
  have hm : m ≠ 0 := by
    have := Nat.two_pow_pos k
    omega
  exact (Nat.log2_eq_iff hm).mpr ⟨hlow, hhigh⟩

theorem floor_bounds_of_log2 {m k : ℕ} (hlog : m.log2 = 52 + k) :
    2 ^ 52 ≤ m / 2 ^ k ∧ m / 2 ^ k < 2 ^ 53 := by
  have hm : m ≠ 0 := by
    rintro rfl
    rw [Nat.log2_zero] at hlog
    omega
  obtain ⟨hlow, hhigh⟩ := (Nat.log2_eq_iff hm).mp hlog
  rw [Nat.le_div_iff_mul_le (Nat.two_pow_pos k),
    Nat.div_lt_iff_lt_mul (Nat.two_pow_pos k), ← pow_add, ← pow_add]
  exact ⟨hlow, by rwa [show 53 + k = 52 + k + 1 by omega]⟩

/-- Rounding shifts the mantissa to 53 bits and rounds what is cut off.  When that
carries into a 54th bit, which is then zero, the bit is shifted out. -/
theorem roundWithAccuracy_eq (s : Sign) {m k : ℕ} {e : ℤ} (acc : Accuracy)
    (hlog : m.log2 = 52 + k) (he : -1074 ≤ e + k) :
    ∃ n f, ∃ hn : 0 < n,
      roundWithAccuracy Format.binary64 s m e acc = .finite s n f hn ∧
        2 ^ 52 ≤ n ∧ n < 2 ^ 53 ∧
        (n = (ExtendedMantissa.ofMantissaAndAccuracy m acc >>> k).roundedMantissa
            ∧ f = e + k ∨
          2 * n =
            (ExtendedMantissa.ofMantissaAndAccuracy m acc >>> k).roundedMantissa
            ∧ f = e + k + 1) := by
  obtain ⟨hfloorLow, hfloorHigh⟩ := floor_bounds_of_log2 hlog
  have hrounded := roundedMantissa_mem
    (ExtendedMantissa.ofMantissaAndAccuracy m acc >>> k)
  rw [mantissa_shiftRight, mantissa_ofMantissaAndAccuracy] at hrounded
  unfold roundWithAccuracy
  rw [shiftToTargetExponent_of_log2 acc hlog he]
  dsimp only
  generalize
    (ExtendedMantissa.ofMantissaAndAccuracy m acc >>> k).roundedMantissa = r
    at hrounded
  by_cases hcarry : r < 2 ^ 53
  · have hr : r.log2 = 52 + 0 := log2_eq_of_bounds (by omega) hcarry
    rw [shiftToTargetExponent_of_log2 .exact hr (by omega)]
    dsimp only
    rw [mantissa_shiftRight, mantissa_ofMantissaAndAccuracy, pow_zero,
      Nat.div_one, dif_neg (by omega)]
    exact ⟨r, _, _, rfl, by omega, hcarry, .inl ⟨rfl, by simp⟩⟩
  · have hr : r = 2 ^ 53 := by omega
    rw [hr, shiftToTargetExponent_of_log2 (k := 1) .exact
      Nat.log2_two_pow (by omega)]
    dsimp only
    rw [mantissa_shiftRight, mantissa_ofMantissaAndAccuracy,
      dif_neg (by norm_num)]
    exact ⟨_, _, _, rfl, by norm_num, by norm_num, .inr ⟨by norm_num, rfl⟩⟩

theorem normalIn_roundWithAccuracy (s : Sign) {m k : ℕ} {e : ℤ}
    (acc : Accuracy) (hlog : m.log2 = 52 + k) (he : -1074 ≤ e + k) :
    NormalIn s (e + k) (e + k + 1)
      (roundWithAccuracy Format.binary64 s m e acc) := by
  obtain ⟨n, f, hn, heq, hnLow, hnHigh, hf⟩ :=
    roundWithAccuracy_eq s acc hlog he
  rw [heq]
  exact ⟨rfl, hnLow, hnHigh, by omega, by omega⟩

theorem toNat_leading_append (mantissa : BitVec 52) :
    (1#1 ++ mantissa).toNat = 2 ^ 52 + mantissa.toNat := by
  rw [BitVec.toNat_append, ← Nat.shiftLeft_add_eq_or_of_lt mantissa.isLt]
  rfl

theorem unpack_pack_of_normalIn {s : Sign} {low high : ℤ}
    {x : UnpackedFloat} (h : NormalIn s low high x) (hlow : -1074 ≤ low)
    (hhigh : high ≤ 971) :
    (Float.Model.pack x).unpack = x := by
  obtain ⟨m, e, hm, rfl, hmLow, hmHigh, heLow, heHigh⟩ := h.exists_eq
  have hlog : m.log2 = 52 := log2_eq_of_bounds hmLow hmHigh
  have hbiased :
      (e + Format.binary64.exponentBias +
        Format.binary64.mantissaBitsWithoutImplicit).toNat =
        (e + 1075).toNat := by
    change (e + (1023 : ℕ) + (52 : ℕ)).toNat = _
    push_cast
    congr 1
    omega
  have hexponent : (BitVec.ofNat 11 (e + 1075).toNat).toNat =
      (e + 1075).toNat := by
    rw [BitVec.toNat_ofNat, Nat.mod_eq_of_lt (by omega)]
  have hmantissa : (1#1 ++ BitVec.ofNat 52 m).toNat = m := by
    rw [toNat_leading_append, BitVec.toNat_ofNat]
    omega
  have hpack :
      UnpackedFloat.pack Format.binary64 (.finite s m e hm) =
        packComponents Format.binary64 s (BitVec.ofNat 11 (e + 1075).toNat)
          (BitVec.ofNat 52 m) := by
    unfold UnpackedFloat.pack
    dsimp only
    rw [hbiased, if_neg (by omega), if_pos (by rw [hlog]; rfl)]
  change UnpackedFloat.unpack Format.binary64
    (UnpackedFloat.pack Format.binary64 (.finite s m e hm)) = _
  rw [hpack]
  unfold UnpackedFloat.unpack
  simp only [unpackExponent_packComponents, unpackMantissa_packComponents,
    unpackSign_packComponents, Sign.ofBitVec_toBitVec]
  rw [if_neg, if_neg]
  · simp only [hmantissa, hexponent, UnpackedFloat.finite.injEq, true_and]
    change ((e + 1075).toNat : ℤ) - ((1023 : ℕ) + (52 : ℕ)) = e
    omega
  · intro heq
    have hvalue := congrArg BitVec.toNat heq
    rw [hexponent] at hvalue
    simp at hvalue
    omega
  · intro heq
    have hvalue := congrArg BitVec.toNat heq
    rw [hexponent] at hvalue
    simp at hvalue
    omega

theorem log2_shiftLeft {n : ℕ} (hn : n ≠ 0) (k : ℕ) :
    (n <<< k).log2 = n.log2 + k := by
  induction k with
  | zero => simp
  | succ k ih =>
      have hne : n <<< k ≠ 0 := by
        rw [Nat.shiftLeft_eq]
        positivity
      rw [Nat.shiftLeft_succ, Nat.log2_two_mul hne, ih]
      omega

theorem normalize_eq {n : ℕ} {e : ℤ} (hn : 0 < n)
    (he : -1022 ≤ n.log2 + e) :
    UnpackedFloat.normalize Format.binary64 n e .positive =
      roundWithAccuracy Format.binary64 .positive (n <<< (52 - n.log2))
        (e - ((52 - n.log2 : ℕ) : ℤ)) .exact := by
  have htarget :
      Format.binary64.targetExponent (totalExponent n e) =
        n.log2 + e - 52 := by
    simp only [Format.targetExponent, totalExponent, Format.mantissaBits,
      Format.minExponent]
    push_cast
    omega
  have hshift : (e - (n.log2 + e - 52)).toNat = 52 - n.log2 := by omega
  unfold UnpackedFloat.normalize
  rw [compare_gt_iff_gt.mpr (by exact_mod_cast hn)]
  unfold UnpackedFloat.round decreaseExponent
  simp only [Int.toNat_natCast, htarget, hshift]

theorem log2_shiftLeft_normal {n : ℕ} (hn : 0 < n) :
    (n <<< (52 - n.log2)).log2 = 52 + (n.log2 - 52) := by
  rw [log2_shiftLeft hn.ne']
  omega

theorem normalIn_normalize {n : ℕ} {e : ℤ} (hn : 0 < n)
    (he : -1022 ≤ n.log2 + e) :
    NormalIn .positive (n.log2 + e - 52) (n.log2 + e - 51)
      (UnpackedFloat.normalize Format.binary64 n e .positive) := by
  have hround := normalIn_roundWithAccuracy .positive
    (e := e - ((52 - n.log2 : ℕ) : ℤ)) .exact (log2_shiftLeft_normal hn)
    (by omega)
  rw [normalize_eq hn he]
  exact hround.mono (by omega) (by omega)

/-- The quotient of two mantissas of 53 bits, after 53 more places, has 53 or 54
bits. -/
theorem log2_quotient {m n : ℕ} (hmLow : 2 ^ 52 ≤ m) (hmHigh : m < 2 ^ 53)
    (hnLow : 2 ^ 52 ≤ n) (hnHigh : n < 2 ^ 53) :
    ∃ k ≤ 1, (m <<< 53 / n).log2 = 52 + k := by
  have hn : 0 < n := by omega
  have hlow : 2 ^ 52 ≤ m <<< 53 / n := by
    rw [Nat.le_div_iff_mul_le hn, Nat.shiftLeft_eq]
    nlinarith
  have hhigh : m <<< 53 / n < 2 ^ 54 := by
    rw [Nat.div_lt_iff_lt_mul hn, Nat.shiftLeft_eq]
    nlinarith
  by_cases hcarry : m <<< 53 / n < 2 ^ 53
  · exact ⟨0, by omega, log2_eq_of_bounds hlow hcarry⟩
  · exact ⟨1, le_rfl, log2_eq_of_bounds (Nat.le_of_not_lt hcarry) hhigh⟩

theorem div_eq {m n : ℕ} {e f : ℤ} {hm : 0 < m} {hn : 0 < n}
    (hmLog : m.log2 = 52) (hnLog : n.log2 = 52) (hlow : -1021 ≤ e - f) :
    UnpackedFloat.div Format.binary64 (.finite .positive m e hm)
        (.finite .positive n f hn) =
      roundWithAccuracy Format.binary64 .positive (m <<< 53 / n)
        (e - f - 53) (accuracyOfFraction (m <<< 53 % n) n) := by
  have htarget :
      min (e - f) (Format.binary64.targetExponent
        (totalExponent m e - totalExponent n f)) = e - f - 53 := by
    simp only [Format.targetExponent, totalExponent, Format.mantissaBits,
      Format.minExponent, hmLog, hnLog]
    push_cast
    omega
  have hshift : (e - f - (e - f - 53)).toNat = 53 := by omega
  unfold UnpackedFloat.div divCore
  simp only [htarget, hshift]
  rfl

theorem normalIn_div {x y : UnpackedFloat} {low high low' high' : ℤ}
    (hx : NormalIn .positive low high x)
    (hy : NormalIn .positive low' high' y) (hlow : -1021 ≤ low - high') :
    NormalIn .positive (low - high' - 53) (high - low' - 51)
      (UnpackedFloat.div Format.binary64 x y) := by
  obtain ⟨m, e, hm, rfl, hmLow, hmHigh, heLow, heHigh⟩ := hx.exists_eq
  obtain ⟨n, f, hn, rfl, hnLow, hnHigh, hfLow, hfHigh⟩ := hy.exists_eq
  obtain ⟨k, hk, hlog⟩ := log2_quotient hmLow hmHigh hnLow hnHigh
  rw [div_eq (log2_eq_of_bounds hmLow hmHigh) (log2_eq_of_bounds hnLow hnHigh)
    (by omega)]
  exact (normalIn_roundWithAccuracy _ _ hlog (by omega)).mono
    (by omega) (by omega)

end ModuleRecovery.Double
