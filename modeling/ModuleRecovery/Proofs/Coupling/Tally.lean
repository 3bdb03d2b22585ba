import ModuleRecovery.Proofs.Coupling.Normalized
import Mathlib.Algebra.BigOperators.Group.Finset.Basic

/-!
# Tallies

Listed pairs are counted twice over: first each occurrence adds one to the count
of its pair, then the counts are added up pair by pair, leaving out pairs of a
class with itself.  As long as the list is short enough for its length to be
counted, neither pass refuses a sum, and if no class is paired with itself the
second pass changes nothing.
-/

namespace ModuleRecovery

/-- The counts say how often each pair is listed. -/
def PairCounts.Tallies (counts : PairCounts) (pairs : List ClassPair) :
    Prop :=
  ∀ pair, counts[pair]? =
    if pair ∈ pairs then some (pairs.count pair) else none

namespace PairCounts

variable {counts : PairCounts} {pairs : List ClassPair}

theorem Tallies.getD_eq (h : counts.Tallies pairs) (pair : ClassPair) :
    counts.getD pair 0 = pairs.count pair := by
  rw [Std.ExtTreeMap.getD_eq_getD_getElem?, h pair]
  split
  · rfl
  · rename_i hmem
    exact (List.count_eq_zero.mpr hmem).symm

theorem Tallies.insert (h : counts.Tallies pairs) (pair : ClassPair) :
    Tallies (counts.insert pair (counts.getD pair 0 + 1)) (pairs ++ [pair]) := by
  intro other
  rw [Std.ExtTreeMap.getElem?_insert]
  simp only [Std.LawfulEqCmp.compare_eq_iff_eq]
  by_cases heq : pair = other
  · subst heq
    simp [h.getD_eq, List.count_append]
  · rw [if_neg heq, h other]
    simp [List.count_append, Ne.symm heq, heq]

theorem Tallies.proper (h : counts.Tallies pairs)
    (hpairs : ∀ pair ∈ pairs, pair.isReflexive = false) : counts.Proper := by
  intro pair count hcount
  rw [h pair] at hcount
  split at hcount
  · rename_i hmem
    cases hcount
    exact ⟨hpairs pair hmem, List.count_pos_iff.mpr hmem⟩
  · cases hcount

/-- A list is as long as its entries are frequent. -/
theorem sum_map_count_eq_length {keys : List ClassPair} (hkeys : keys.Nodup)
    (hmem : ∀ pair ∈ pairs, pair ∈ keys) :
    (keys.map fun key => pairs.count key).sum = pairs.length := by
  have hcard := @Multiset.sum_count_eq_card _ _ keys.toFinset (pairs : Multiset _)
    (by simpa using hmem)
  simpa [List.sum_toFinset _ hkeys] using hcard

theorem Tallies.sum_eq (h : counts.Tallies pairs) :
    counts.sum = pairs.length := by
  have hkeys : ∀ pair ∈ pairs, pair ∈ counts.keys := by
    intro pair hmem
    rw [Std.ExtTreeMap.mem_keys, Std.ExtTreeMap.mem_iff_isSome_getElem?,
      h pair, if_pos hmem]
    rfl
  rw [← sum_map_count_eq_length Std.ExtTreeMap.nodup_keys hkeys,
    PairCounts.sum_eq, ← Std.ExtTreeMap.map_fst_toList_eq_keys, List.map_map]
  congr 1
  refine List.map_congr_left ?_
  rintro ⟨pair, count⟩ hentry
  have hcount := Std.ExtTreeMap.mem_toList_iff_getElem?_eq_some.mp hentry
  have hgetD := h.getD_eq pair
  rw [Std.ExtTreeMap.getD_eq_getD_getElem?, hcount] at hgetD
  exact hgetD

end PairCounts

namespace Coupling

/-! ## Counting the list -/

theorem increase?_of_le {counts : PairCounts} {pair : ClassPair} {count : ℕ}
    (hfits : counts.getD pair 0 + count ≤ maxCount) :
    increase? counts pair count =
      some (counts.insert pair (counts.getD pair 0 + count)) := by
  unfold increase? addCounts?
  rw [if_pos hfits]
  rfl

theorem exists_tally? {pairs : List ClassPair}
    (hfits : pairs.length ≤ maxCount) :
    ∃ counts, tally? pairs = some counts ∧ counts.Tallies pairs := by
  induction pairs using List.reverseRecOn with
  | nil => exact ⟨∅, rfl, by simp [PairCounts.Tallies]⟩
  | append_singleton pairs pair ih =>
      rw [List.length_append, List.length_singleton] at hfits
      obtain ⟨counts, hcounts, htallies⟩ := ih (by omega)
      refine ⟨_, ?_, htallies.insert pair⟩
      have hcount := pairs.count_le_length (a := pair)
      unfold tally? at hcounts ⊢
      rw [List.foldlM_append, hcounts]
      change (increase? counts pair 1).bind some = _
      rw [increase?_of_le (by rw [htallies.getD_eq]; omega)]
      rfl

/-- A tally that is not refused says how often each pair is listed. -/
theorem tallies_of_tally? {pairs : List ClassPair} {counts : PairCounts}
    (h : tally? pairs = some counts) :
    counts.Tallies pairs ∧ ∀ pair, pairs.count pair ≤ maxCount := by
  induction pairs using List.reverseRecOn generalizing counts with
  | nil =>
      cases h
      exact ⟨by simp [PairCounts.Tallies], by simp⟩
  | append_singleton pairs pair ih =>
      unfold tally? at h
      rw [List.foldlM_append] at h
      obtain ⟨before, hbefore, hlast⟩ := Option.bind_eq_some_iff.mp h
      obtain ⟨htallies, hbound⟩ := ih hbefore
      obtain ⟨next, hnext, rfl⟩ : ∃ next, increase? before pair 1 = some next ∧
          next = counts := by
        simpa using hlast
      unfold increase? addCounts? at hnext
      split at hnext
      · rename_i hfits
        cases hnext
        refine ⟨htallies.insert pair, ?_⟩
        intro other
        rw [htallies.getD_eq] at hfits
        by_cases heq : pair = other
        · simpa [List.count_append, heq] using hfits
        · simpa [List.count_append, heq] using hbound other
      · cases hnext

/-! ## Adding up the counts -/

/-- Counts of different pairs are entered as they are. -/
theorem exists_foldlM_addPair? {entries : List (ClassPair × ℕ)}
    (hkeys : (entries.map Prod.fst).Nodup)
    (hentries : ∀ entry ∈ entries, entry.1.isReflexive = false ∧
      0 < entry.2 ∧ entry.2 ≤ maxCount) :
    ∃ raw, entries.foldlM addPair? ∅ = some raw ∧
      ∀ (pair : ClassPair) (count : ℕ),
        raw[pair]? = some count ↔ (pair, count) ∈ entries := by
  induction entries using List.reverseRecOn with
  | nil => exact ⟨∅, rfl, by simp⟩
  | append_singleton entries entry ih =>
      rw [List.map_append, List.map_singleton, List.nodup_append] at hkeys
      obtain ⟨raw, hraw, hmem⟩ := ih hkeys.1 fun other hother =>
        hentries other (List.mem_append_left _ hother)
      obtain ⟨hpair, hpos, hle⟩ := hentries entry (by simp)
      have hnew : ∀ count, (entry.1, count) ∉ entries := by
        intro count hcount
        exact hkeys.2.2 _ (List.mem_map_of_mem hcount) _ (by simp) rfl
      have hnone : raw[entry.1]? = none := by
        rw [Option.eq_none_iff_forall_ne_some]
        intro count hcount
        exact hnew count ((hmem _ _).mp hcount)
      have hgetD : raw.getD entry.1 0 = 0 := by
        rw [Std.ExtTreeMap.getD_eq_getD_getElem?, hnone]
        rfl
      refine ⟨raw.insert entry.1 entry.2, ?_, ?_⟩
      · rw [List.foldlM_append, hraw]
        change (addPair? raw entry).bind some = _
        rw [addPair?, if_neg (by simp [hpair]; omega),
          increase?_of_le (by omega), hgetD, Nat.zero_add]
        rfl
      · intro pair count
        rw [Std.ExtTreeMap.getElem?_insert]
        simp only [Std.LawfulEqCmp.compare_eq_iff_eq]
        by_cases heq : entry.1 = pair
        · subst heq
          simp [hnew, Prod.ext_iff, eq_comm]
        · simp [heq, hmem, Prod.ext_iff, Ne.symm heq]

theorem foldlM_addPair?_toList {counts : PairCounts}
    (hproper : counts.Proper) (hfits : ∀ (pair : ClassPair) (count : ℕ),
      counts[pair]? = some count → count ≤ maxCount) :
    counts.toList.foldlM addPair? ∅ = some counts := by
  have hkeys : (counts.toList.map Prod.fst).Nodup := by
    rw [Std.ExtTreeMap.map_fst_toList_eq_keys]
    exact Std.ExtTreeMap.nodup_keys
  obtain ⟨raw, hraw, hmem⟩ := exists_foldlM_addPair? hkeys (by
    rintro ⟨pair, count⟩ hentry
    have hcount := Std.ExtTreeMap.mem_toList_iff_getElem?_eq_some.mp hentry
    obtain ⟨hpair, hpos⟩ := hproper pair count hcount
    exact ⟨hpair, hpos, hfits pair count hcount⟩)
  have heq : raw = counts := by
    apply Std.ExtTreeMap.ext_getElem?
    intro pair
    ext count
    rw [hmem, Std.ExtTreeMap.mem_toList_iff_getElem?_eq_some]
  rw [hraw, heq]

theorem exists_ofProper? {raw : PairCounts} (hproper : raw.Proper)
    (hsum : raw.sum ≤ maxCount) :
    ∃ coupling, ofProper? raw hproper = some coupling ∧
      coupling.raw = raw := by
  have hfits := foldlM_addCounts?_eq (raw.toList.map Prod.snd) 0
    (Nat.zero_le _)
  rw [Nat.zero_add, List.foldr_map, ← PairCounts.sum, if_pos hsum] at hfits
  unfold ofProper?
  split
  · rename_i hnone
    cases hnone.symm.trans hfits
  · exact ⟨_, rfl, rfl⟩

theorem exists_ofCounts?_toList {counts : PairCounts}
    (hproper : counts.Proper) (hsum : counts.sum ≤ maxCount) :
    ∃ coupling, ofCounts? counts.toList = some coupling ∧
      coupling.raw = counts := by
  have hfold := foldlM_addPair?_toList hproper fun _ _ hcount =>
    (PairCounts.le_sum hcount).trans hsum
  unfold ofCounts?
  split
  · rename_i hnone
    cases hnone.symm.trans hfold
  · rename_i raw hraw
    cases hraw.symm.trans hfold
    exact exists_ofProper? _ hsum

/-- The coupling of resolved calls has the tally of their pairs. -/
theorem exists_ofResolution? {model : ClassModel} {resolution : Resolution}
    (hpairs : ∀ pair ∈ pairsOf model resolution.found,
      pair.isReflexive = false)
    (hfits : (pairsOf model resolution.found).length ≤ maxCount) :
    ∃ coupling, ofResolution? model resolution = some coupling ∧
      tally? (pairsOf model resolution.found) = some coupling.raw ∧
      coupling.raw.Tallies (pairsOf model resolution.found) := by
  obtain ⟨counts, hcounts, htallies⟩ := exists_tally? hfits
  obtain ⟨coupling, hcoupling, hraw⟩ := exists_ofCounts?_toList
    (htallies.proper hpairs) (htallies.sum_eq.trans_le hfits)
  refine ⟨coupling, ?_, ?_, ?_⟩
  · unfold ofResolution?
    rw [hcounts]
    exact hcoupling
  · rw [hraw]
    exact hcounts
  · rw [hraw]
    exact htallies

theorem raw_eq_of_ofProper? {raw : PairCounts} {hproper : raw.Proper}
    {coupling : Coupling} (h : ofProper? raw hproper = some coupling) :
    coupling.raw = raw := by
  unfold ofProper? at h
  split at h
  · cases h
  · cases h
    rfl

/-- Conversely, a coupling of resolved calls can only be their tally. -/
theorem tallies_of_ofResolution? {model : ClassModel}
    {resolution : Resolution} {coupling : Coupling}
    (hpairs : ∀ pair ∈ pairsOf model resolution.found,
      pair.isReflexive = false)
    (h : ofResolution? model resolution = some coupling) :
    coupling.raw.Tallies (pairsOf model resolution.found) := by
  unfold ofResolution? at h
  obtain ⟨counts, hcounts, hcoupling⟩ := Option.bind_eq_some_iff.mp h
  obtain ⟨htallies, hbound⟩ := tallies_of_tally? hcounts
  have hfold := foldlM_addPair?_toList (htallies.proper hpairs) (by
    intro pair count hcount
    rw [htallies pair] at hcount
    split at hcount
    · cases hcount
      exact hbound pair
    · cases hcount)
  unfold ofCounts? at hcoupling
  split at hcoupling
  · cases hcoupling
  · rename_i raw hraw
    cases hraw.symm.trans hfold
    rw [raw_eq_of_ofProper? hcoupling]
    exact htallies

end Coupling

end ModuleRecovery
