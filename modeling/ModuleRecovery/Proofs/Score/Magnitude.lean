import ModuleRecovery.Cluster
import ModuleRecovery.Proofs.Coupling.Normalized
import ModuleRecovery.Proofs.Score.Rounding

/-!
# Magnitudes

The scores that an analysis computes on doubles are sums of shares divided by
counts.  None of them is negative, and none of them fails to be a number, so all
of them can be compared.  A share itself is moreover finite.
-/

namespace ModuleRecovery

namespace Double

open Float.Model Float.Model.UnpackedFloat

/-- A number that is not negative and not minus zero. -/
def IsMagnitude (x : Float) : Prop :=
  Nonneg x.toModel.unpack

theorem IsMagnitude.isNumber {x : Float} (h : IsMagnitude x) : IsNumber x :=
  ne_notANumber_of_nonneg h

theorem isMagnitude_zero : IsMagnitude Score.zero := by
  have hzero : (Score.zero : Float).toModel.unpack = .zero .positive := rfl
  unfold IsMagnitude
  rw [hzero]
  exact rfl

theorem IsMagnitude.zero_le {x : Float} (h : IsMagnitude x) :
    Score.le Score.zero x = true := by
  have hle : (UnpackedFloat.zero .positive).le x.toModel.unpack = true := by
    unfold IsMagnitude at h
    cases hx : x.toModel.unpack with
    | notANumber =>
        rw [hx] at h
        exact h.elim
    | infinity s =>
        rw [hx] at h
        cases h
        rfl
    | zero s => rfl
    | finite s m e hm =>
        rw [hx] at h
        cases h
        rfl
  exact (score_le_iff _ _).mpr hle

theorem IsMagnitude.add {x y : Float} (hx : IsMagnitude x)
    (hy : IsMagnitude y) : IsMagnitude (Score.add x y) :=
  nonneg_unpack_pack (nonneg_add hx hy)

theorem isMagnitude_sum {scores : List Float}
    (h : ∀ x ∈ scores, IsMagnitude x) : IsMagnitude (Score.sum scores) := by
  have hfold : ∀ start, IsMagnitude start →
      IsMagnitude (scores.foldl Score.add start) := by
    induction scores with
    | nil =>
        intro start hstart
        exact hstart
    | cons score scores ih =>
        intro start hstart
        rw [List.foldl_cons]
        exact ih (fun x hx => h x (List.mem_cons_of_mem _ hx)) _
          (hstart.add (h score List.mem_cons_self))
  exact hfold _ isMagnitude_zero

theorem unpack_toFloat {n : ℕ} (hpos : 0 < n) (hmax : n ≤ maxCount) :
    n.toUInt64.toFloat.toModel.unpack =
      UnpackedFloat.normalize Format.binary64 n 0 .positive := by
  have hbound : n < 2 ^ 64 := by
    unfold maxCount at hmax
    omega
  have hvalue : n.toUInt64.toNat = n := by
    rw [Nat.toUInt64_eq, UInt64.toNat_ofNat', Nat.mod_eq_of_lt hbound]
  have hlog : n.log2 < 64 := (Nat.log2_lt hpos.ne').mpr hbound
  have hnormal := normalIn_normalize (e := 0) hpos (by omega)
  change (Float.Model.pack (UnpackedFloat.normalize Format.binary64
      n.toUInt64.toNat 0 .positive)).unpack = _
  rw [hvalue, unpack_pack_of_normalIn hnormal (by omega) (by omega)]

theorem normalIn_toFloat {n : ℕ} (hpos : 0 < n) (hmax : n ≤ maxCount) :
    NormalIn .positive (-52) 12 n.toUInt64.toFloat.toModel.unpack := by
  have hbound : n < 2 ^ 64 := by
    unfold maxCount at hmax
    omega
  have hlog : n.log2 < 64 := (Nat.log2_lt hpos.ne').mpr hbound
  rw [unpack_toFloat hpos hmax]
  exact (normalIn_normalize (e := 0) hpos (by omega)).mono
    (by omega) (by omega)

theorem normalIn_floatOfCount {n : ℕ} (hpos : 0 < n) :
    NormalIn .positive (-52) 12 (Score.floatOfCount n).toModel.unpack := by
  unfold Score.floatOfCount
  split
  · rename_i hmax
    exact normalIn_toFloat hpos hmax
  · exact normalIn_toFloat (by decide) le_rfl

theorem isMagnitude_mean {scores : List Float} {count : ℕ}
    (h : ∀ x ∈ scores, IsMagnitude x) (hcount : 0 < count) :
    IsMagnitude (Score.mean scores count) := by
  obtain ⟨m, e, hm, heq, -⟩ := (normalIn_floatOfCount hcount).exists_eq
  exact nonneg_unpack_pack (nonneg_div (isMagnitude_sum h) heq)

end Double

open Double

namespace Coupling

theorem unpack_share {coupling : Coupling} {count : ℕ} (hcount : 0 < count)
    (htotal : 0 < coupling.total) :
    (coupling.share count : Float).toModel.unpack =
      Float.Model.UnpackedFloat.div Float.Model.Format.binary64
        (Score.floatOfCount count).toModel.unpack
        (Score.floatOfCount coupling.total).toModel.unpack :=
  unpack_pack_of_normalIn (normalIn_div (normalIn_floatOfCount hcount)
    (normalIn_floatOfCount htotal) (by norm_num)) (by norm_num) (by norm_num)

theorem normalIn_share {coupling : Coupling} {count : ℕ} (hcount : 0 < count)
    (htotal : 0 < coupling.total) :
    NormalIn .positive (-117) 13
      (coupling.share count : Float).toModel.unpack := by
  rw [unpack_share hcount htotal]
  exact (normalIn_div (normalIn_floatOfCount hcount)
    (normalIn_floatOfCount htotal) (by norm_num)).mono
      (by norm_num) (by norm_num)

theorem isMagnitude_between (coupling : Coupling) (a b : String) :
    IsMagnitude (coupling.between a b) := by
  rcases @between_cases Float _ coupling a b with
    hzero | ⟨count, hcount, htotal, heq⟩
  · rw [hzero]
    exact isMagnitude_zero
  · obtain ⟨m, e, hm, hshare, -⟩ := (normalIn_share hcount htotal).exists_eq
    unfold IsMagnitude
    rw [heq, hshare]
    exact rfl

theorem isFinite_between (coupling : Coupling) (a b : String) :
    (coupling.between a b : Float).isFinite = true := by
  rcases @between_cases Float _ coupling a b with
    hzero | ⟨count, hcount, htotal, heq⟩
  · rw [hzero]
    rfl
  · obtain ⟨m, e, hm, hshare, -⟩ := (normalIn_share hcount htotal).exists_eq
    change (coupling.between a b : Float).toModel.unpack.isFinite = true
    rw [heq, hshare]
    rfl

end Coupling

theorem Cluster.length_mul_length_pos {ι α : Type} (a b : Cluster ι α) :
    0 < a.members.length * b.members.length :=
  Nat.mul_pos (List.length_pos_of_ne_nil a.members_ne_nil)
    (List.length_pos_of_ne_nil b.members_ne_nil)

theorem Cluster.isMagnitude_average {ι : Type} {scores : ι → ι → Float}
    (h : ∀ i j, IsMagnitude (scores i j)) (a b : Cluster ι Float) :
    IsMagnitude (a.average scores b) := by
  apply isMagnitude_mean
  · intro score hscore
    obtain ⟨i, -, hj⟩ := List.mem_flatMap.mp hscore
    obtain ⟨j, -, rfl⟩ := List.mem_map.mp hj
    exact h i j
  · exact length_mul_length_pos a b

end ModuleRecovery
