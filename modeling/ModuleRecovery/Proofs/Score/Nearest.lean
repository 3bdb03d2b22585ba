import ModuleRecovery.Proofs.Score.Magnitude

/-!
# Quotients of counts

A normal result of the arithmetic of doubles is a multiple of a power of two, its
unit, and it is at most half a unit away from the exact result.  Below one the
unit is at most `2 ^ (-53)`, so quotients with a common denominator below `2 ^ 53`
are too far apart to be rounded to one double.  A whole number below `2 ^ 53` is a
multiple of its unit, and no rounding takes place.
-/

namespace ModuleRecovery

namespace Double

open Float.Model Float.Model.UnpackedFloat

/-! ## Values -/

/-- The value of a finite double; what has no value counts as zero. -/
def value : UnpackedFloat → ℚ
  | .finite s m e _ => (s.apply m : ℤ) * 2 ^ e
  | _ => 0

theorem value_positive (m : ℕ) (e : ℤ) (hm : 0 < m) :
    value (.finite .positive m e hm) = m * 2 ^ e :=
  rfl

/-- Normal doubles with rising values are in rising places. -/
theorem place_lt_of_value_lt {low high low' high' : ℤ} {x y : UnpackedFloat}
    (hx : NormalIn .positive low high x)
    (hy : NormalIn .positive low' high' y) (h : value x < value y) :
    place x < place y := by
  obtain ⟨m, e, hm, rfl, hmLow, -⟩ := hx.exists_eq
  obtain ⟨n, f, hn, rfl, -, hnHigh, -⟩ := hy.exists_eq
  rw [value_positive, value_positive] at h
  have hunit : (0 : ℚ) < 2 ^ e := by positivity
  have hle : e ≤ f := by
    by_contra hfe
    -- the larger unit outweighs every mantissa of 53 bits
    have hunits : (2 : ℚ) ^ f * 2 ≤ 2 ^ e := by
      rw [← zpow_add_one₀ two_ne_zero]
      exact zpow_le_zpow_right₀ one_le_two (by omega)
    have hmLow : (2 : ℚ) ^ 52 ≤ m := by exact_mod_cast hmLow
    have hnHigh : (n : ℚ) < 2 ^ 53 := by exact_mod_cast hnHigh
    have hother : (0 : ℚ) < 2 ^ f := by positivity
    nlinarith
  rcases hle.lt_or_eq with hlt | rfl
  · simp [place, Prod.Lex.toLex_lt_toLex, hlt]
  · have hlt : m < n := by
      exact_mod_cast (mul_lt_mul_iff_left₀ hunit).mp h
    simp [place, Prod.Lex.toLex_lt_toLex, hlt]

/-! ## What the round bit and the sticky bit say -/

/-- The mantissa is the whole part of the number.  The round bit tells whether the
fraction reaches one half, the sticky bit whether there is more to it. -/
def Reads (em : ExtendedMantissa) (x : ℚ) : Prop :=
  ∃ rest : ℚ, x = em.mantissa + (if em.roundBit then 1 / 2 else 0) + rest ∧
    0 ≤ rest ∧ rest < 1 / 2 ∧ (em.stickyBit = true ↔ 0 < rest)

theorem reads_exact (m : ℕ) :
    Reads (ExtendedMantissa.ofMantissaAndAccuracy m .exact) m :=
  ⟨0, by simp [ExtendedMantissa.ofMantissaAndAccuracy]⟩

theorem reads_fraction (p : ℕ) {n : ℕ} (hn : 0 < n) :
    Reads (ExtendedMantissa.ofMantissaAndAccuracy (p / n)
      (accuracyOfFraction (p % n) n)) (p / n) := by
  have hsplit : (p : ℚ) = n * (p / n : ℕ) + (p % n : ℕ) := by
    exact_mod_cast (Nat.div_add_mod p n).symm
  have hn' : (0 : ℚ) < n := by exact_mod_cast hn
  have hquotient : (p : ℚ) / n = (p / n : ℕ) + (p % n : ℕ) / n := by
    rw [div_eq_iff hn'.ne', hsplit]
    field_simp
  have hless : p % n < n := Nat.mod_lt _ hn
  rw [hquotient]
  generalize p / n = m, p % n = r at hless
  unfold accuracyOfFraction
  by_cases hr : r = 0
  · subst hr
    simpa using reads_exact m
  · have hr' : (0 : ℚ) < r := by exact_mod_cast Nat.pos_of_ne_zero hr
    have hless' : (r : ℚ) < n := by exact_mod_cast hless
    rw [if_neg hr]
    rcases lt_trichotomy (2 * r) n with hlt | heq | hgt
    · have hlt' : 2 * (r : ℚ) < n := by exact_mod_cast hlt
      rw [compare_lt_iff_lt.mpr hlt]
      refine ⟨r / n, by simp [ExtendedMantissa.ofMantissaAndAccuracy],
        by positivity, ?_, ?_⟩
      · rw [div_lt_iff₀ hn']
        linarith
      · simp [ExtendedMantissa.ofMantissaAndAccuracy, hr', hn']
    · have heq' : 2 * (r : ℚ) = n := by exact_mod_cast heq
      rw [compare_eq_iff_eq.mpr heq]
      refine ⟨0, ?_, le_rfl, by norm_num, ?_⟩
      · simp only [ExtendedMantissa.ofMantissaAndAccuracy, ↓reduceIte, ← heq']
        field_simp
        ring
      · simp [ExtendedMantissa.ofMantissaAndAccuracy]
    · have hgt' : (n : ℚ) < 2 * r := by exact_mod_cast hgt
      have hhalf : 1 / 2 < (r : ℚ) / n := by
        rw [lt_div_iff₀ hn']
        linarith
      have hone : (r : ℚ) / n < 1 := (div_lt_one hn').mpr hless'
      rw [compare_gt_iff_gt.mpr hgt]
      refine ⟨r / n - 1 / 2, ?_, by linarith, by linarith, ?_⟩
      · simp only [ExtendedMantissa.ofMantissaAndAccuracy, ↓reduceIte]
        ring
      · simpa [ExtendedMantissa.ofMantissaAndAccuracy] using hhalf

namespace Reads

variable {em : ExtendedMantissa} {x : ℚ}

theorem mantissa_le (h : Reads em x) :
    (em.mantissa : ℚ) ≤ x ∧ x < em.mantissa + 1 := by
  obtain ⟨rest, rfl, hlow, hhigh, -⟩ := h
  split <;> constructor <;> linarith

theorem shiftRightOne (h : Reads em x) : Reads em.shiftRightOne (x / 2) := by
  obtain ⟨rest, rfl, hlow, hhigh, hsticky⟩ := h
  have hsplit : (em.mantissa : ℚ) =
      2 * (em.mantissa / 2 : ℕ) + (em.mantissa % 2 : ℕ) := by
    exact_mod_cast (Nat.div_add_mod em.mantissa 2).symm
  -- the old half and its rest make up the new rest
  refine ⟨((if em.roundBit then 1 / 2 else 0) + rest) / 2, ?_, ?_, ?_, ?_⟩
  · rw [hsplit]
    rcases Nat.mod_two_eq_zero_or_one em.mantissa with hbit | hbit
    · simp only [ExtendedMantissa.shiftRightOne, hbit]
      norm_num
      ring
    · simp only [ExtendedMantissa.shiftRightOne, hbit]
      norm_num
      ring
  · split <;> linarith
  · split <;> linarith
  · cases hround : em.roundBit with
    | true =>
        simp only [ExtendedMantissa.shiftRightOne, hround, Bool.true_or,
          ↓reduceIte, true_iff]
        linarith
    | false => simp [ExtendedMantissa.shiftRightOne, hround, hsticky]

theorem shiftRight (h : Reads em x) (k : ℕ) :
    Reads (em >>> k) (x / 2 ^ k) := by
  induction k with
  | zero => simpa [HShiftRight.hShiftRight, Nat.repeat] using h
  | succ k ih =>
      have hstep := ih.shiftRightOne
      rw [div_div, ← pow_succ] at hstep
      exact hstep

/-- The rounded mantissa is a whole number nearest to the number read. -/
theorem abs_roundedMantissa_sub_le (h : Reads em x) :
    |(em.roundedMantissa : ℚ) - x| ≤ 1 / 2 := by
  obtain ⟨rest, rfl, hlow, hhigh, hsticky⟩ := h
  obtain ⟨m, roundBit, stickyBit⟩ := em
  rw [abs_le]
  cases roundBit with
  | false =>
      have hrounded : ExtendedMantissa.roundedMantissa
          ⟨m, false, stickyBit⟩ = m := by
        cases stickyBit <;> rfl
      simp only [hrounded, Bool.false_eq_true, ↓reduceIte]
      constructor <;> linarith
  | true =>
      cases stickyBit with
      | true =>
          change -(1 / 2) ≤ ((m + 1 : ℕ) : ℚ) - (m + 1 / 2 + rest) ∧
            ((m + 1 : ℕ) : ℚ) - (m + 1 / 2 + rest) ≤ 1 / 2
          push_cast
          constructor <;> linarith
      | false =>
          have hrest : rest = 0 := le_antisymm (by simpa using hsticky) hlow
          change -(1 / 2) ≤ ((m + m % 2 : ℕ) : ℚ) - (m + 1 / 2 + rest) ∧
            ((m + m % 2 : ℕ) : ℚ) - (m + 1 / 2 + rest) ≤ 1 / 2
          rcases Nat.mod_two_eq_zero_or_one m with hbit | hbit
          · rw [hbit, hrest]
            push_cast
            constructor <;> linarith
          · rw [hbit, hrest]
            push_cast
            constructor <;> linarith

end Reads

/-! ## Nearest doubles -/

/-- The value is a whole number of units, at most half a unit away from the given
number, where the unit is that of the 53rd bit of the number. -/
def Nearest (q v : ℚ) : Prop :=
  ∃ (n : ℕ) (e : ℤ), v = n * 2 ^ e ∧ 2 ^ 52 * 2 ^ e ≤ q ∧
    q < 2 ^ 53 * 2 ^ e ∧ |v - q| ≤ 2 ^ e / 2

theorem nearest_roundWithAccuracy {m k : ℕ} {e : ℤ} {acc : Accuracy} {x : ℚ}
    (hlog : m.log2 = 52 + k) (he : -1074 ≤ e + k)
    (hx : Reads (ExtendedMantissa.ofMantissaAndAccuracy m acc) x) :
    Nearest (x * 2 ^ e)
      (value (roundWithAccuracy Format.binary64 .positive m e acc)) := by
  let em := ExtendedMantissa.ofMantissaAndAccuracy m acc >>> k
  have hvalue : value (roundWithAccuracy Format.binary64 .positive m e acc) =
      em.roundedMantissa * 2 ^ (e + k) := by
    obtain ⟨n, f, hn, heq, -, -, hcases⟩ :=
      roundWithAccuracy_eq .positive acc hlog he
    rw [heq, value_positive]
    rcases hcases with ⟨rfl, rfl⟩ | ⟨hdouble, rfl⟩
    · rfl
    · have hdouble : (em.roundedMantissa : ℚ) = 2 * n := by
        exact_mod_cast hdouble.symm
      rw [hdouble, zpow_add_one₀ two_ne_zero]
      ring
  have hshifted : x * 2 ^ e = x / 2 ^ k * 2 ^ (e + k) := by
    rw [zpow_add₀ two_ne_zero, zpow_natCast]
    field_simp
  have hreads : Reads em (x / 2 ^ k) := hx.shiftRight k
  obtain ⟨hfloorLow, hfloorHigh⟩ := floor_bounds_of_log2 hlog
  have hmantissa : em.mantissa = m / 2 ^ k := by
    rw [mantissa_shiftRight, mantissa_ofMantissaAndAccuracy]
  obtain ⟨hlow, hhigh⟩ := hreads.mantissa_le
  rw [← hmantissa] at hfloorLow hfloorHigh
  have hmantissaLow : (2 : ℚ) ^ 52 ≤ em.mantissa := by
    exact_mod_cast hfloorLow
  have hmantissaHigh : (em.mantissa : ℚ) + 1 ≤ 2 ^ 53 := by
    exact_mod_cast hfloorHigh
  have hunit : (0 : ℚ) < 2 ^ (e + k) := by positivity
  refine ⟨em.roundedMantissa, e + k, hvalue, ?_, ?_, ?_⟩
  · rw [hshifted]
    gcongr
    exact hmantissaLow.trans hlow
  · rw [hshifted]
    gcongr
    exact hhigh.trans_le hmantissaHigh
  · calc
      |value (roundWithAccuracy Format.binary64 .positive m e acc) - x * 2 ^ e|
          = |(em.roundedMantissa : ℚ) - x / 2 ^ k| * 2 ^ (e + k) := by
        rw [hvalue, hshifted, ← sub_mul, abs_mul, abs_of_pos hunit]
      _ ≤ 1 / 2 * 2 ^ (e + k) := by
        gcongr
        exact hreads.abs_roundedMantissa_sub_le
      _ = 2 ^ (e + k) / 2 := by ring

theorem nearest_normalize {n : ℕ} {e : ℤ} (hn : 0 < n)
    (he : -1022 ≤ n.log2 + e) :
    Nearest (n * 2 ^ e)
      (value (UnpackedFloat.normalize Format.binary64 n e .positive)) := by
  have hscaled : (n : ℚ) * 2 ^ e = (n <<< (52 - n.log2) : ℕ) *
      2 ^ (e - ((52 - n.log2 : ℕ) : ℤ)) := by
    rw [Nat.shiftLeft_eq, zpow_sub₀ two_ne_zero, zpow_natCast]
    push_cast
    field_simp
  rw [normalize_eq hn he, hscaled]
  exact nearest_roundWithAccuracy (log2_shiftLeft_normal hn) (by omega)
    (reads_exact _)

theorem nearest_div {x y : UnpackedFloat} {low high low' high' : ℤ}
    (hx : NormalIn .positive low high x)
    (hy : NormalIn .positive low' high' y) (hlow : -1021 ≤ low - high') :
    Nearest (value x / value y)
      (value (UnpackedFloat.div Format.binary64 x y)) := by
  obtain ⟨m, e, hm, rfl, hmLow, hmHigh, heLow, -⟩ := hx.exists_eq
  obtain ⟨n, f, hn, rfl, hnLow, hnHigh, -, hfHigh⟩ := hy.exists_eq
  obtain ⟨k, -, hlog⟩ := log2_quotient hmLow hmHigh hnLow hnHigh
  have hscaled : value (.finite .positive m e hm) /
      value (.finite .positive n f hn) =
        ((m <<< 53 : ℕ) / n : ℚ) * 2 ^ (e - f - 53) := by
    rw [value_positive, value_positive, Nat.shiftLeft_eq,
      zpow_sub₀ two_ne_zero, zpow_sub₀ two_ne_zero]
    push_cast
    field_simp
  rw [div_eq (log2_eq_of_bounds hmLow hmHigh) (log2_eq_of_bounds hnLow hnHigh)
    (by omega), hscaled]
  exact nearest_roundWithAccuracy hlog (by omega) (reads_fraction _ hn)

namespace Nearest

variable {p q v w : ℚ}

theorem abs_sub_le (h : Nearest q v) (hq : q < 1) :
    |v - q| ≤ 1 / 2 ^ 54 := by
  obtain ⟨n, e, -, hlow, -, hclose⟩ := h
  have he : e ≤ -53 := by
    have hpower : (2 : ℚ) ^ (52 + e) < 2 ^ (0 : ℤ) := by
      rw [zpow_add₀ two_ne_zero]
      exact hlow.trans_lt (by simpa using hq)
    have := (zpow_lt_zpow_iff_right₀ one_lt_two).mp hpower
    omega
  calc
    |v - q| ≤ 2 ^ e / 2 := hclose
    _ ≤ 2 ^ (-53 : ℤ) / 2 := by
      gcongr
      exact one_le_two
    _ = 1 / 2 ^ 54 := by norm_num

theorem eq_natCast {n : ℕ} (h : Nearest n v) (hn : n < 2 ^ 53) : v = n := by
  obtain ⟨r, e, rfl, hlow, -, hclose⟩ := h
  have he : e ≤ 0 := by
    have hn : (n : ℚ) < 2 ^ 53 := by exact_mod_cast hn
    have hpower : (2 : ℚ) ^ (52 + e) < 2 ^ (53 : ℤ) := by
      rw [zpow_add₀ two_ne_zero]
      exact hlow.trans_lt hn
    have := (zpow_lt_zpow_iff_right₀ one_lt_two).mp hpower
    omega
  obtain ⟨j, rfl⟩ : ∃ j : ℕ, e = -j := ⟨e.natAbs, by omega⟩
  -- two whole numbers of units at most half a unit apart are equal
  have hscaled : (r : ℚ) * 2 ^ (-(j : ℤ)) - n =
      ((r : ℤ) - (n * 2 ^ j : ℕ) : ℤ) * 2 ^ (-(j : ℤ)) := by
    rw [zpow_neg, zpow_natCast]
    push_cast
    field_simp
  have hunit : (0 : ℚ) < 2 ^ (-(j : ℤ)) := by positivity
  rw [hscaled, abs_mul, abs_of_pos hunit, div_eq_inv_mul,
    mul_le_mul_iff_left₀ hunit] at hclose
  have hzero : |(r : ℤ) - (n * 2 ^ j : ℕ)| < 1 := by
    have hhalf : ((|(r : ℤ) - (n * 2 ^ j : ℕ)| : ℤ) : ℚ) < 1 := by
      rw [Int.cast_abs]
      exact hclose.trans_lt (by norm_num)
    exact_mod_cast hhalf
  rw [Int.abs_lt_one_iff] at hzero
  rw [hzero, Int.cast_zero, zero_mul, sub_eq_zero] at hscaled
  exact hscaled

/-- Numbers up to one that are more than `2 ^ (-53)` apart are not rounded to one
double, nor to two doubles in the wrong order. -/
theorem lt_of_gap (hp : Nearest p v) (hq : Nearest q w) (hone : q ≤ 1)
    (hgap : p + 1 / 2 ^ 53 < q) : v < w := by
  have hbelow : p < 1 := by
    have : (0 : ℚ) < 1 / 2 ^ 53 := by positivity
    linarith
  have hv := (abs_le.mp (hp.abs_sub_le hbelow)).2
  rcases hone.lt_or_eq with hless | rfl
  · have hw := (abs_le.mp (hq.abs_sub_le hless)).1
    norm_num at hgap hv hw
    linarith
  · have hw : w = 1 := by
      simpa using eq_natCast (n := 1) (by simpa using hq) (by norm_num)
    norm_num at hgap hv
    linarith

end Nearest

theorem value_floatOfCount {n : ℕ} (hpos : 0 < n) (hn : n < 2 ^ 53) :
    value (Score.floatOfCount n).toModel.unpack = n := by
  have hmax : n ≤ maxCount := by
    unfold maxCount
    omega
  have hnearest : Nearest n (value (Score.floatOfCount n).toModel.unpack) := by
    rw [Score.floatOfCount, if_pos hmax, unpack_toFloat hpos hmax]
    simpa using nearest_normalize (e := 0) hpos (by omega)
  exact hnearest.eq_natCast hn

end Double

open Double

namespace Coupling

variable {coupling : Coupling} {m n : ℕ}

theorem nearest_share (hn : 0 < n) (hle : n ≤ coupling.total)
    (htotal : coupling.total < 2 ^ 53) :
    Nearest (n / coupling.total)
      (value (coupling.share n : Float).toModel.unpack) := by
  have hpos : 0 < coupling.total := hn.trans_le hle
  have hnearest := nearest_div (normalIn_floatOfCount hn)
    (normalIn_floatOfCount hpos) (by norm_num)
  rw [← unpack_share hn hpos, value_floatOfCount hn (hle.trans_lt htotal),
    value_floatOfCount hpos htotal] at hnearest
  exact hnearest

/-- A larger count has a larger score. -/
theorem share_lt_share (hm : 0 < m) (hmn : m < n) (hn : n ≤ coupling.total)
    (htotal : coupling.total < 2 ^ 53) :
    (coupling.share m : Float) < coupling.share n := by
  have hpos : 0 < coupling.total := by omega
  have hmNormal := normalIn_share hm hpos
  have hnNormal := normalIn_share (hm.trans hmn) hpos
  have hpos' : (0 : ℚ) < coupling.total := by exact_mod_cast hpos
  have htotal' : (coupling.total : ℚ) < 2 ^ 53 := by exact_mod_cast htotal
  have hstep : (m : ℚ) + 1 ≤ n := by exact_mod_cast hmn
  have hone : (n : ℚ) / coupling.total ≤ 1 := by
    rw [div_le_one hpos']
    exact_mod_cast hn
  have hgap : (m : ℚ) / coupling.total + 1 / 2 ^ 53 < n / coupling.total :=
    calc
      (m : ℚ) / coupling.total + 1 / 2 ^ 53 <
          m / coupling.total + 1 / coupling.total := by gcongr
      _ = (m + 1) / coupling.total := by ring
      _ ≤ n / coupling.total := by gcongr
  have hvalue := (nearest_share hm (hmn.le.trans hn) htotal).lt_of_gap
    (nearest_share (hm.trans hmn) hn htotal) hone hgap
  apply of_decide_eq_true
  exact (score_lt_iff_place_lt hmNormal.ne_notANumber
    hnNormal.ne_notANumber).mpr
      (place_lt_of_value_lt hmNormal hnNormal hvalue)

end Coupling

end ModuleRecovery
