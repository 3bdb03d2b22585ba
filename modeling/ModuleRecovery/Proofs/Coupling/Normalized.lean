import ModuleRecovery.Coupling
import Mathlib.Tactic

/-!
# Normalized coupling

The guard against an empty total never hides a score: a coupling without a
total has no counts.  So the score of a pair is the share of its count.
-/

namespace ModuleRecovery

variable {α : Type} [Score α]

theorem PairCounts.sum_eq (counts : PairCounts) :
    counts.sum = (counts.toList.map Prod.snd).sum := by
  rw [PairCounts.sum, List.sum_eq_foldr, List.foldr_map]

theorem PairCounts.le_sum {counts : PairCounts} {pair : ClassPair}
    {count : ℕ} (h : counts[pair]? = some count) : count ≤ counts.sum := by
  have hmem : (pair, count) ∈ counts.toList :=
    Std.ExtTreeMap.mem_toList_iff_getElem?_eq_some.mpr h
  rw [PairCounts.sum_eq]
  exact List.le_sum_of_mem (List.mem_map_of_mem hmem)

namespace Coupling

theorem total_pos_of_getElem? {coupling : Coupling} {pair : ClassPair}
    {count : ℕ} (h : coupling.raw[pair]? = some count) :
    0 < coupling.total := by
  have hpos := (coupling.proper pair count h).2
  have hle := PairCounts.le_sum h
  rw [coupling.total_eq]
  omega

theorem getElem?_normalized (coupling : Coupling) (pair : ClassPair) :
    (coupling.normalized : PairScores α)[pair]? =
      coupling.raw[pair]?.map coupling.share := by
  unfold normalized
  split
  · rw [Std.ExtTreeMap.getElem?_map]
  · rename_i htotal
    cases hcount : coupling.raw[pair]? with
    | none => simp
    | some count => exact (htotal (total_pos_of_getElem? hcount)).elim

/-- A pair has a score exactly when there are calls between its classes. -/
theorem mem_normalized_iff (coupling : Coupling)
    (pair : ClassPair) :
    pair ∈ (coupling.normalized : PairScores α) ↔
      0 < coupling.rawBetween pair.first pair.second := by
  rw [Std.ExtTreeMap.mem_iff_isSome_getElem?, getElem?_normalized,
    Option.isSome_map, rawBetween, ClassPair.of_first_second,
    Std.ExtTreeMap.getD_eq_getD_getElem?]
  cases hcount : coupling.raw[pair]? with
  | none => simp
  | some count =>
      obtain ⟨hpair, hpos⟩ := coupling.proper pair count hcount
      have hne : pair.first ≠ pair.second := beq_eq_false_iff_ne.mp hpair
      simpa [hne] using hpos

theorem between_comm (coupling : Coupling) (a b : String) :
    (coupling.between a b : α) = coupling.between b a := by
  unfold between scoreIn
  rw [ClassPair.of_comm]
  simp only [eq_comm]

theorem between_self (coupling : Coupling) (a : String) :
    (coupling.between a a : α) = Score.zero := by
  unfold between scoreIn
  rw [if_pos rfl]

theorem rawBetween_le_total (coupling : Coupling) (a b : String) :
    coupling.rawBetween a b ≤ coupling.total := by
  unfold rawBetween
  split
  · exact Nat.zero_le _
  · rw [Std.ExtTreeMap.getD_eq_getD_getElem?, coupling.total_eq]
    cases hcount : coupling.raw[ClassPair.of a b]? with
    | none => exact Nat.zero_le _
    | some count => exact PairCounts.le_sum hcount

/-- The score of two classes is the share of the calls between them. -/
theorem between_eq (coupling : Coupling) (a b : String) :
    (coupling.between a b : α) =
      if coupling.rawBetween a b = 0 then Score.zero
      else coupling.share (coupling.rawBetween a b) := by
  unfold between scoreIn rawBetween
  split
  · rfl
  · rw [Std.ExtTreeMap.getD_eq_getD_getElem?, getElem?_normalized,
      Std.ExtTreeMap.getD_eq_getD_getElem?]
    cases hcount : coupling.raw[ClassPair.of a b]? with
    | none => rfl
    | some count =>
        rw [Option.getD_some, if_neg (coupling.proper _ _ hcount).2.ne']
        rfl

theorem between_cases (coupling : Coupling) (a b : String) :
    (coupling.between a b : α) = Score.zero ∨
      ∃ count, 0 < count ∧ 0 < coupling.total ∧
        (coupling.between a b : α) = coupling.share count := by
  rw [between_eq]
  split
  · exact .inl rfl
  · rename_i hcount
    have hpos : 0 < coupling.rawBetween a b := Nat.pos_of_ne_zero hcount
    exact .inr ⟨_, hpos, hpos.trans_le (coupling.rawBetween_le_total a b), rfl⟩

end Coupling

end ModuleRecovery
