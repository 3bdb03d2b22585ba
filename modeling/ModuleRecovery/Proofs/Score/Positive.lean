import ModuleRecovery.Proofs.Score.Magnitude

/-!
# Means that vanish

A mean of magnitudes is zero only if all of them are.  For doubles this asks that
nothing is lost to rounding.  A share is either zero or so far from the smallest
exponents that it stays positive when it is added to others, which can only make
it larger, and when the sum is divided by a count, which takes away no more than
65 binary places.  A sum may well overflow, but infinity is positive too.
-/

namespace ModuleRecovery

namespace Double

open Float.Model Float.Model.UnpackedFloat

/-- Positive infinity, or a positive number whose mantissa has 53 bits and whose
exponent is not below the given one. -/
def PositiveFrom (low : ℤ) : UnpackedFloat → Prop
  | .infinity s => s = .positive
  | .notANumber => False
  | .zero _ => False
  | .finite s m e _ => s = .positive ∧ 2 ^ 52 ≤ m ∧ m < 2 ^ 53 ∧ low ≤ e

theorem NormalIn.positiveFrom {low high : ℤ} {x : UnpackedFloat}
    (h : NormalIn .positive low high x) : PositiveFrom low x := by
  obtain ⟨m, e, hm, rfl, hmLow, hmHigh, heLow, -⟩ := h.exists_eq
  exact ⟨rfl, hmLow, hmHigh, heLow⟩

theorem PositiveFrom.mono {low low' : ℤ} {x : UnpackedFloat}
    (h : PositiveFrom low x) (hle : low' ≤ low) : PositiveFrom low' x := by
  cases x with
  | notANumber => exact h.elim
  | infinity s => exact h
  | zero s => exact h.elim
  | finite s m e hm =>
      obtain ⟨hs, hmLow, hmHigh, he⟩ := h
      exact ⟨hs, hmLow, hmHigh, hle.trans he⟩

theorem PositiveFrom.unpack_pack {low : ℤ} {x : UnpackedFloat}
    (h : PositiveFrom low x) (hlow : -1074 ≤ low) :
    PositiveFrom low (Float.Model.pack x).unpack := by
  cases x with
  | notANumber => exact h.elim
  | infinity s =>
      cases h
      exact rfl
  | zero s => exact h.elim
  | finite s m e hm =>
      obtain ⟨rfl, hmLow, hmHigh, he⟩ := h
      by_cases hfits : e ≤ 971
      · have hnormal : NormalIn .positive low 971 (.finite .positive m e hm) :=
          ⟨rfl, hmLow, hmHigh, he, hfits⟩
        rw [unpack_pack_of_normalIn hnormal hlow le_rfl]
        exact hnormal.positiveFrom
      · have hoverflow :
            UnpackedFloat.pack Format.binary64 (.finite .positive m e hm) =
              packedInfinity Format.binary64 .positive := by
          unfold UnpackedFloat.pack
          dsimp only
          rw [if_pos]
          change 2 ^ 11 ≤ (e + (1023 : ℕ) + (52 : ℕ)).toNat + 1
          omega
        change PositiveFrom low (UnpackedFloat.unpack Format.binary64
          (UnpackedFloat.pack Format.binary64 (.finite .positive m e hm)))
        rw [hoverflow]
        exact rfl

/-- The leading bit of a sum is not below that of its first term. -/
theorem positiveFrom_add_finite {low e f : ℤ} {m n : ℕ} {hm : 0 < m}
    {hn : 0 < n} (hlow : -1074 ≤ low) (hmLow : 2 ^ 52 ≤ m)
    (he : low ≤ e) :
    PositiveFrom low (UnpackedFloat.add Format.binary64
      (.finite .positive m e hm) (.finite .positive n f hn)) := by
  let shift := (e - min e f).toNat
  let total := m <<< shift + n <<< (f - min e f).toNat
  have hle : m <<< shift ≤ total := Nat.le_add_right _ _
  have hpos : 0 < m <<< shift := by
    rw [Nat.shiftLeft_eq]
    positivity
  have hlog : 52 + shift ≤ total.log2 := by
    have hbits : 52 ≤ m.log2 := (Nat.le_log2 hm.ne').mpr hmLow
    have hmono : (m <<< shift).log2 ≤ total.log2 := by
      rw [Nat.le_log2 (hpos.trans_le hle).ne']
      exact (Nat.log2_self_le hpos.ne').trans hle
    rw [log2_shiftLeft hm.ne'] at hmono
    omega
  have hshift : (shift : ℤ) = e - min e f :=
    Int.toNat_of_nonneg (sub_nonneg.mpr (min_le_left e f))
  have hnormal := normalIn_normalize (e := min e f) (hpos.trans_le hle)
    (by omega)
  exact hnormal.positiveFrom.mono (by omega)

theorem PositiveFrom.add {low : ℤ} {x y : UnpackedFloat}
    (hx : PositiveFrom low x) (hy : PositiveFrom low y)
    (hlow : -1074 ≤ low) :
    PositiveFrom low (UnpackedFloat.add Format.binary64 x y) := by
  cases x with
  | notANumber => exact hx.elim
  | zero s => exact hx.elim
  | infinity s =>
      cases hx
      cases y with
      | notANumber => exact hy.elim
      | zero t => exact hy.elim
      | infinity t =>
          cases hy
          exact rfl
      | finite t n f hn => exact rfl
  | finite s m e hm =>
      obtain ⟨rfl, hmLow, -, he⟩ := hx
      cases y with
      | notANumber => exact hy.elim
      | zero t => exact hy.elim
      | infinity t => exact hy
      | finite t n f hn =>
          obtain ⟨rfl, -⟩ := hy
          exact positiveFrom_add_finite hlow hmLow he

theorem PositiveFrom.add_zero_eq {low : ℤ} {x : UnpackedFloat}
    (hx : PositiveFrom low x) :
    UnpackedFloat.add Format.binary64 x (.zero .positive) = x ∧
      UnpackedFloat.add Format.binary64 (.zero .positive) x = x := by
  cases x with
  | notANumber => exact hx.elim
  | zero s => exact hx.elim
  | infinity s => exact ⟨rfl, rfl⟩
  | finite s m e hm => exact ⟨rfl, rfl⟩

theorem PositiveFrom.div {low low' high' : ℤ} {x y : UnpackedFloat}
    (hx : PositiveFrom low x) (hy : NormalIn .positive low' high' y)
    (hlow : -1021 ≤ low - high') :
    PositiveFrom (low - high' - 53)
      (UnpackedFloat.div Format.binary64 x y) := by
  cases x with
  | notANumber => exact hx.elim
  | zero s => exact hx.elim
  | infinity s =>
      cases hx
      obtain ⟨n, f, hn, rfl, -⟩ := hy.exists_eq
      exact rfl
  | finite s m e hm =>
      obtain ⟨rfl, hmLow, hmHigh, he⟩ := hx
      have hnormal : NormalIn .positive low e (.finite .positive m e hm) :=
        ⟨rfl, hmLow, hmHigh, he, le_rfl⟩
      exact (normalIn_div hnormal hy hlow).positiveFrom

/-! ## Sums and means -/

/-- A positive number that is not smaller than the shares of a coupling are. -/
def IsSubstantial (x : Float) : Prop :=
  PositiveFrom (-117) x.toModel.unpack

theorem lt_of_positiveFrom {low : ℤ} {x : Float}
    (h : PositiveFrom low x.toModel.unpack) :
    Score.lt Score.zero x = true := by
  have hlt : (UnpackedFloat.zero .positive).lt x.toModel.unpack = true := by
    cases hx : x.toModel.unpack with
    | notANumber =>
        rw [hx] at h
        exact h.elim
    | zero s =>
        rw [hx] at h
        exact h.elim
    | infinity s =>
        rw [hx] at h
        cases h
        rfl
    | finite s m e hm =>
        rw [hx] at h
        obtain ⟨rfl, -⟩ := h
        rfl
  exact (score_lt_iff _ _).mpr hlt

theorem IsSubstantial.isMagnitude {x : Float} (h : IsSubstantial x) :
    IsMagnitude x := by
  unfold IsSubstantial at h
  unfold IsMagnitude
  cases hx : x.toModel.unpack with
  | notANumber =>
      rw [hx] at h
      exact h.elim
  | zero s =>
      rw [hx] at h
      exact h.elim
  | infinity s =>
      rw [hx] at h
      exact h
  | finite s m e hm =>
      rw [hx] at h
      exact h.1

theorem IsSubstantial.add {x y : Float} (hx : IsSubstantial x)
    (hy : IsSubstantial y) : IsSubstantial (Score.add x y) :=
  (PositiveFrom.add hx hy (by norm_num)).unpack_pack (by norm_num)

theorem IsSubstantial.add_zero {x : Float} (hx : IsSubstantial x) :
    IsSubstantial (Score.add x Score.zero) := by
  change PositiveFrom (-117) (Float.Model.pack (UnpackedFloat.add
    Format.binary64 x.toModel.unpack (.zero .positive))).unpack
  rw [(PositiveFrom.add_zero_eq hx).1]
  exact PositiveFrom.unpack_pack hx (by norm_num)

theorem IsSubstantial.zero_add {x : Float} (hx : IsSubstantial x) :
    IsSubstantial (Score.add Score.zero x) := by
  change PositiveFrom (-117) (Float.Model.pack (UnpackedFloat.add
    Format.binary64 (.zero .positive) x.toModel.unpack)).unpack
  rw [(PositiveFrom.add_zero_eq hx).2]
  exact PositiveFrom.unpack_pack hx (by norm_num)

theorem zero_add_zero : Score.add (Score.zero : Float) Score.zero =
    Score.zero := rfl

theorem sum_eq_zero {scores : List Float} (h : ∀ x ∈ scores, x = Score.zero) :
    Score.sum scores = Score.zero := by
  unfold Score.sum
  induction scores with
  | nil => rfl
  | cons score scores ih =>
      rw [List.foldl_cons, h score List.mem_cons_self, zero_add_zero]
      exact ih fun x hx => h x (List.mem_cons_of_mem _ hx)

theorem isSubstantial_sum {scores : List Float}
    (h : ∀ x ∈ scores, x = Score.zero ∨ IsSubstantial x)
    (hsome : ∃ x ∈ scores, IsSubstantial x) :
    IsSubstantial (Score.sum scores) := by
  -- once the running sum is positive it stays so
  have hfold : ∀ start, (start = Score.zero ∧
        ∃ x ∈ scores, IsSubstantial x) ∨ IsSubstantial start →
      IsSubstantial (scores.foldl Score.add start) := by
    clear hsome
    induction scores with
    | nil =>
        rintro start (⟨-, x, hx, -⟩ | hstart)
        · cases hx
        · exact hstart
    | cons score scores ih =>
        intro start hstart
        rw [List.foldl_cons]
        apply ih fun x hx => h x (List.mem_cons_of_mem _ hx)
        rcases hstart with ⟨rfl, x, hx, hpos⟩ | hstart
        · rcases h score List.mem_cons_self with rfl | hscore
          · refine .inl ⟨zero_add_zero, x, ?_, hpos⟩
            rcases List.mem_cons.mp hx with rfl | hx
            · exact (show False from hpos).elim
            · exact hx
          · exact .inr hscore.zero_add
        · rcases h score List.mem_cons_self with rfl | hscore
          · exact .inr hstart.add_zero
          · exact .inr (hstart.add hscore)
  exact hfold _ (.inl ⟨rfl, hsome⟩)

theorem mean_eq_zero {scores : List Float} {count : ℕ}
    (h : ∀ x ∈ scores, x = Score.zero) (hcount : 0 < count) :
    Score.mean scores count = Score.zero := by
  obtain ⟨m, e, hm, heq, -⟩ := (normalIn_floatOfCount hcount).exists_eq
  have hquotient : UnpackedFloat.div Format.binary64 (.zero .positive)
      (Score.floatOfCount count).toModel.unpack = .zero .positive := by
    rw [heq]
    rfl
  unfold Score.mean
  rw [sum_eq_zero h]
  change Float.ofModel (Float.Model.pack (UnpackedFloat.div Format.binary64
    (.zero .positive) (Score.floatOfCount count).toModel.unpack)) = _
  rw [hquotient]
  rfl

theorem zero_lt_mean {scores : List Float} {count : ℕ}
    (h : ∀ x ∈ scores, x = Score.zero ∨ IsSubstantial x)
    (hsome : ∃ x ∈ scores, IsSubstantial x) (hcount : 0 < count) :
    Score.lt Score.zero (Score.mean scores count) = true := by
  have hquotient := PositiveFrom.div (isSubstantial_sum h hsome)
    (normalIn_floatOfCount hcount) (by norm_num)
  exact lt_of_positiveFrom (hquotient.unpack_pack (by norm_num))

end Double

open Double

theorem Coupling.between_eq_zero_or_isSubstantial (coupling : Coupling)
    (a b : String) :
    (coupling.between a b : Float) = Score.zero ∨
      IsSubstantial (coupling.between a b) := by
  rcases @between_cases Float _ coupling a b with
    hzero | ⟨count, hcount, htotal, heq⟩
  · exact .inl hzero
  · right
    unfold IsSubstantial
    rw [heq]
    exact (normalIn_share hcount htotal).positiveFrom

namespace Cluster

variable {ι : Type} {scores : ι → ι → Float} {a b : Cluster ι Float}

theorem average_eq_zero
    (h : ∀ i ∈ a.members, ∀ j ∈ b.members, scores i j = Score.zero) :
    a.average scores b = Score.zero := by
  apply mean_eq_zero
  · intro score hscore
    obtain ⟨i, hi, hrow⟩ := List.mem_flatMap.mp hscore
    obtain ⟨j, hj, rfl⟩ := List.mem_map.mp hrow
    exact h i hi j hj
  · exact length_mul_length_pos a b

theorem zero_lt_average
    (h : ∀ i j, scores i j = Score.zero ∨ IsSubstantial (scores i j))
    {i j : ι} (hi : i ∈ a.members) (hj : j ∈ b.members)
    (hpos : IsSubstantial (scores i j)) :
    Score.lt Score.zero (a.average scores b) = true := by
  apply zero_lt_mean
  · intro score hscore
    obtain ⟨i, -, hrow⟩ := List.mem_flatMap.mp hscore
    obtain ⟨j, -, rfl⟩ := List.mem_map.mp hrow
    exact h i j
  · exact ⟨_, List.mem_flatMap.mpr ⟨i, hi, List.mem_map_of_mem hj⟩, hpos⟩
  · exact length_mul_length_pos a b

end Cluster

end ModuleRecovery
