import ModuleRecovery.Proofs.Score.Magnitude

/-!
# Ranking magnitudes

A ranking compares the bits of doubles, while a threshold compares their values.
For magnitudes the two agree.  The bits of a magnitude, read as a number, are the
exponent above the mantissa, and a normal mantissa carries into the exponent
exactly as much as the step to the next exponent adds.
-/

namespace ModuleRecovery.Double

open Float.Model Float.Model.UnpackedFloat

/-! ## Comparing values -/

theorem compare_then_swap (e₁ e₂ : ℤ) (m₁ m₂ : ℕ) :
    ((compare e₁ e₂).then (compare m₁ m₂)).swap =
      (compare e₂ e₁).then (compare m₂ m₁) := by
  rw [Ordering.swap_then, ← Std.OrientedCmp.eq_swap,
    ← Std.OrientedCmp.eq_swap]

theorem compare_swap (a b : UnpackedFloat) :
    (a.compare b).map Ordering.swap = b.compare a := by
  cases a with
  | notANumber => cases b <;> rfl
  | infinity s =>
      cases b with
      | notANumber => rfl
      | infinity t => cases s <;> cases t <;> rfl
      | zero t => cases s <;> rfl
      | finite t m e hm => cases s <;> cases t <;> rfl
  | zero s =>
      cases b with
      | notANumber => rfl
      | infinity t => cases t <;> rfl
      | zero t => rfl
      | finite t m e hm => cases t <;> rfl
  | finite s m e hm =>
      cases b with
      | notANumber => rfl
      | infinity t => cases s <;> cases t <;> rfl
      | zero t => cases s <;> rfl
      | finite t n f hn =>
          cases s <;> cases t <;>
            simp [UnpackedFloat.compare, compare_then_swap]

theorem exists_compare_eq {a b : UnpackedFloat} (ha : a ≠ .notANumber)
    (hb : b ≠ .notANumber) : ∃ ordering, a.compare b = some ordering := by
  cases a with
  | notANumber => exact (ha rfl).elim
  | infinity s =>
      cases b with
      | notANumber => exact (hb rfl).elim
      | infinity t => exact ⟨_, rfl⟩
      | zero t => cases s <;> exact ⟨_, rfl⟩
      | finite t m e hm => cases s <;> exact ⟨_, rfl⟩
  | zero s =>
      cases b with
      | notANumber => exact (hb rfl).elim
      | infinity t => cases t <;> exact ⟨_, rfl⟩
      | zero t => exact ⟨_, rfl⟩
      | finite t m e hm => cases t <;> exact ⟨_, rfl⟩
  | finite s m e hm =>
      cases b with
      | notANumber => exact (hb rfl).elim
      | infinity t => cases s <;> cases t <;> exact ⟨_, rfl⟩
      | zero t => cases s <;> exact ⟨_, rfl⟩
      | finite t n f hn => cases s <;> cases t <;> exact ⟨_, rfl⟩

theorem le_iff_place_le {a b : UnpackedFloat} (ha : a ≠ .notANumber)
    (hb : b ≠ .notANumber) :
    a.le b = true ↔ place a ≤ place b := by
  obtain ⟨ordering, hordering⟩ := exists_compare_eq ha hb
  rw [← not_lt, ← lt_iff_place_lt hb ha]
  unfold UnpackedFloat.le UnpackedFloat.lt
  rw [← compare_swap a b, hordering]
  cases ordering <;> decide

theorem score_le_iff_place_le {x y : Float} (hx : IsNumber x)
    (hy : IsNumber y) :
    Score.le x y = true ↔
      place x.toModel.unpack ≤ place y.toModel.unpack := by
  rw [score_le_iff, le_iff_place_le hx hy]

/-! ## Comparing bits -/

/-- The bits of a magnitude as a number: those of the exponent above those of the
mantissa, without the leading bit of a normal mantissa. -/
def weight : UnpackedFloat → ℤ
  | .infinity _ => 2047 * 2 ^ 52
  | .notANumber => 0
  | .zero _ => 0
  | .finite _ m e _ => (e + 1074) * 2 ^ 52 + m

/-- The mantissa has at most 53 bits, and it has fewer only below the least
exponent of normal numbers. -/
def Canonical : UnpackedFloat → Prop
  | .finite _ m e _ =>
    m < 2 ^ 53 ∧ -1074 ≤ e ∧ e ≤ 971 ∧ (2 ^ 52 ≤ m ∨ e = -1074)
  | _ => True

theorem weight_lt_weight_iff {a b : UnpackedFloat} (ha : Nonneg a)
    (hb : Nonneg b) (hac : Canonical a) (hbc : Canonical b) :
    weight a < weight b ↔ place a < place b := by
  cases a with
  | notANumber => exact ha.elim
  | infinity s =>
      cases ha
      cases b with
      | notANumber => exact hb.elim
      | infinity t =>
          cases hb
          simp [weight, place]
      | zero t =>
          simp [weight, place, Prod.Lex.toLex_lt_toLex]
      | finite t m e hm =>
          cases hb
          obtain ⟨hm', -, he, -⟩ := hbc
          simp only [weight, place, Prod.Lex.toLex_lt_toLex]
          omega
  | zero s =>
      cases b with
      | notANumber => exact hb.elim
      | infinity t =>
          cases hb
          simp [weight, place, Prod.Lex.toLex_lt_toLex]
      | zero t => simp [weight, place]
      | finite t m e hm =>
          cases hb
          obtain ⟨-, he, -, -⟩ := hbc
          simp only [weight, place, Prod.Lex.toLex_lt_toLex]
          omega
  | finite s m e hm =>
      cases ha
      obtain ⟨hmHigh, heLow, heHigh, hmNormal⟩ := hac
      cases b with
      | notANumber => exact hb.elim
      | infinity t =>
          cases hb
          simp only [weight, place, Prod.Lex.toLex_lt_toLex]
          omega
      | zero t =>
          simp only [weight, place, Prod.Lex.toLex_lt_toLex]
          omega
      | finite t n f hn =>
          cases hb
          obtain ⟨hnHigh, hfLow, hfHigh, hnNormal⟩ := hbc
          have hplace : place (.finite .positive m e hm) <
              place (.finite .positive n f hn) ↔ e < f ∨ e = f ∧ m < n := by
            simp [place, Prod.Lex.toLex_lt_toLex]
          rw [hplace]
          simp only [weight]
          omega

theorem toNat_packComponents (exponent : BitVec 11) (mantissa : BitVec 52) :
    (packComponents Format.binary64 .positive exponent mantissa).toNat =
      exponent.toNat * 2 ^ 52 + mantissa.toNat := by
  change (Sign.positive.toBitVec ++ exponent ++ mantissa).toNat = _
  rw [BitVec.toNat_append, BitVec.toNat_append,
    ← Nat.shiftLeft_add_eq_or_of_lt mantissa.isLt,
    ← Nat.shiftLeft_add_eq_or_of_lt exponent.isLt, Nat.shiftLeft_eq]
  simp [Sign.toBitVec]

/-- A magnitude weighs what its bits say. -/
theorem weight_unpack_packComponents {sign : Sign} {exponent : BitVec 11}
    {mantissa : BitVec 52}
    (h : Nonneg (UnpackedFloat.unpack Format.binary64
      (packComponents Format.binary64 sign exponent mantissa))) :
    sign = .positive ∧
      weight (UnpackedFloat.unpack Format.binary64
        (packComponents Format.binary64 sign exponent mantissa)) =
          exponent.toNat * 2 ^ 52 + mantissa.toNat ∧
      Canonical (UnpackedFloat.unpack Format.binary64
        (packComponents Format.binary64 sign exponent mantissa)) := by
  have hmantissa : mantissa.toNat < 2 ^ 52 := mantissa.isLt
  have hexponent : exponent.toNat < 2 ^ 11 := exponent.isLt
  have hbias : ((Format.binary64.exponentBias : ℤ) +
      Format.binary64.mantissaBitsWithoutImplicit) = 1075 := rfl
  unfold UnpackedFloat.unpack at h ⊢
  simp only [unpackExponent_packComponents, unpackMantissa_packComponents,
    unpackSign_packComponents, Sign.ofBitVec_toBitVec, hbias] at h ⊢
  by_cases hlast : exponent = -1#11
  · rw [if_pos hlast] at h ⊢
    by_cases hzero : mantissa = 0#52
    · rw [if_pos hzero] at h ⊢
      refine ⟨h, ?_, trivial⟩
      subst hlast hzero
      rfl
    · rw [if_neg hzero] at h
      exact h.elim
  · have hne : exponent.toNat ≠ 2047 := by
      intro heq
      exact hlast (BitVec.eq_of_toNat_eq heq)
    rw [if_neg hlast] at h ⊢
    by_cases hfirst : exponent = 0#11
    · rw [if_pos hfirst] at h ⊢
      subst hfirst
      by_cases hzero : mantissa = 0#52
      · rw [dif_pos hzero] at h ⊢
        refine ⟨h, ?_, trivial⟩
        subst hzero
        rfl
      · rw [dif_neg hzero] at h ⊢
        refine ⟨h, ?_, ?_⟩
        · simp [weight]
        · simp only [Canonical, BitVec.toNat_zero]
          omega
    · have hpos : exponent.toNat ≠ 0 := by
        intro heq
        exact hfirst (BitVec.eq_of_toNat_eq heq)
      rw [if_neg hfirst] at h ⊢
      refine ⟨h, ?_, ?_⟩
      · simp only [weight, toNat_leading_append]
        push_cast
        ring
      · simp only [Canonical, toNat_leading_append]
        omega

theorem floatPlace_eq_weight {x : Float} (hx : IsMagnitude x) :
    Score.floatPlace x = weight x.toModel.unpack ∧
      Canonical x.toModel.unpack := by
  let bits : BitVec Format.binary64.numBits := x.toBits.toBitVec
  obtain ⟨sign, exponent, mantissa, hbits⟩ :
      ∃ sign exponent mantissa,
        packComponents Format.binary64 sign exponent mantissa = bits :=
    ⟨_, _, _, packComponents_unpackSign_unpackExponent_unpackMantissa bits⟩
  have hnonneg : Nonneg (UnpackedFloat.unpack Format.binary64 bits) := hx
  rw [← hbits] at hnonneg
  obtain ⟨rfl, hweight, hcanonical⟩ := weight_unpack_packComponents hnonneg
  have hnat : x.toBits.toNat = exponent.toNat * 2 ^ 52 + mantissa.toNat := by
    rw [← toNat_packComponents, hbits]
    rfl
  have hexponent : exponent.toNat < 2 ^ 11 := exponent.isLt
  have hmantissa : mantissa.toNat < 2 ^ 52 := mantissa.isLt
  rw [hbits] at hweight hcanonical
  refine ⟨?_, hcanonical⟩
  unfold Score.floatPlace
  dsimp only
  rw [hnat, if_pos (by omega)]
  push_cast
  exact hweight.symm

/-- Magnitudes are ranked by their values. -/
theorem IsMagnitude.rank_iff {x y : Float} (hx : IsMagnitude x)
    (hy : IsMagnitude y) :
    Score.rank x y = true ↔
      place x.toModel.unpack ≤ place y.toModel.unpack := by
  obtain ⟨hxPlace, hxCanonical⟩ := floatPlace_eq_weight hx
  obtain ⟨hyPlace, hyCanonical⟩ := floatPlace_eq_weight hy
  change decide (Score.floatPlace x ≤ Score.floatPlace y) = true ↔ _
  rw [decide_eq_true_iff, hxPlace, hyPlace, ← not_lt, ← not_lt,
    weight_lt_weight_iff hy hx hyCanonical hxCanonical]

/-! ## A ranking as an order -/

theorem rank_trans {x y z : Float} (hxy : Score.rank x y = true)
    (hyz : Score.rank y z = true) : Score.rank x z = true :=
  decide_eq_true ((of_decide_eq_true hxy).trans (of_decide_eq_true hyz))

theorem rank_total (x y : Float) :
    (Score.rank x y || Score.rank y x) = true := by
  rw [Bool.or_eq_true]
  rcases le_total (Score.floatPlace x) (Score.floatPlace y) with hle | hle
  · exact .inl (decide_eq_true hle)
  · exact .inr (decide_eq_true hle)

theorem floatPlace_injective : Function.Injective Score.floatPlace := by
  intro x y hplace
  have hbits : x.toBits.toNat = y.toBits.toNat := by
    unfold Score.floatPlace at hplace
    dsimp only at hplace
    split at hplace <;> split at hplace <;> omega
  have hmodel : x.toModel.toBits = y.toModel.toBits :=
    UInt64.toNat.inj hbits
  rcases x with ⟨⟨_, _⟩⟩
  rcases y with ⟨⟨_, _⟩⟩
  cases hmodel
  rfl

/-- Of two magnitudes in the order of a ranking the first is less, or they are the
same and stand in the order both ways. -/
theorem IsMagnitude.lt_or_eq_of_rank {x y : Float} (hx : IsMagnitude x)
    (hy : IsMagnitude y) (h : Score.rank x y = true) :
    x < y ∨ x = y ∧ Score.rank y x = true := by
  by_cases hback : Score.rank y x = true
  · have hplace := le_antisymm (of_decide_eq_true h) (of_decide_eq_true hback)
    exact .inr ⟨floatPlace_injective hplace, hback⟩
  · rw [hy.rank_iff hx, not_le,
      ← score_lt_iff_place_lt hx.isNumber hy.isNumber] at hback
    exact .inl (of_decide_eq_true hback)

end ModuleRecovery.Double
