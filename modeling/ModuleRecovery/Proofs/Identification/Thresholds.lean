import ModuleRecovery.Proofs.Identification.SharedCache
import ModuleRecovery.Proofs.Score.Ranking
import Mathlib.Data.List.Sort

/-!
# Raising the threshold

The candidates that reach the higher of two thresholds have greater scores than
the others.  A stable sort by falling score therefore puts them first, in the
order in which it would put them alone.  So taking the best candidates and then
leaving out those below the higher threshold gives what taking the best candidates
at the higher threshold gives, whether or not there are more than the cap allows.
-/

namespace ModuleRecovery

/-! ## Sorting in two groups -/

section Sorting

variable {β : Type} {le : β → β → Bool}

theorem orderedInsert_eq_cons {r : β → β → Prop} [DecidableRel r] {a : β}
    {list : List β} (h : ∀ b ∈ list, r a b) :
    list.orderedInsert r a = a :: list := by
  cases list with
  | nil => rfl
  | cons b list =>
      exact List.orderedInsert_cons_of_le r list (h b List.mem_cons_self)

theorem orderedInsert_append_right {r : β → β → Prop} [DecidableRel r] {a : β}
    {front : List β} (h : ∀ b ∈ front, ¬ r a b) (back : List β) :
    (front ++ back).orderedInsert r a =
      front ++ back.orderedInsert r a := by
  induction front with
  | nil => rfl
  | cons b front ih =>
      have hb : ¬ r a b := h b List.mem_cons_self
      rw [List.cons_append, List.orderedInsert_cons, if_neg hb,
        ih fun c hc => h c (List.mem_cons_of_mem _ hc), List.cons_append]

theorem orderedInsert_append_left {r : β → β → Prop} [DecidableRel r] {a : β}
    {back : List β} (h : ∀ b ∈ back, r a b) (front : List β) :
    (front ++ back).orderedInsert r a =
      front.orderedInsert r a ++ back := by
  induction front with
  | nil => exact orderedInsert_eq_cons h
  | cons b front ih =>
      rw [List.cons_append, List.orderedInsert_cons, List.orderedInsert_cons,
        ih]
      split <;> rfl

/-- Stable sorting inserts one element after the other. -/
theorem mergeSort_cons_eq (htrans : ∀ a b c, le a b → le b c → le a c)
    (htotal : ∀ a b, le a b || le b a) (a : β) (list : List β) :
    (a :: list).mergeSort le =
      (list.mergeSort le).orderedInsert (fun x y => le x y = true) a := by
  obtain ⟨front, back, hcons, hlist, hfront⟩ :=
    List.mergeSort_cons htrans htotal a list
  have hsorted := List.pairwise_mergeSort htrans htotal (a :: list)
  rw [hcons] at hsorted
  have hback := (List.pairwise_cons.mp (List.pairwise_append.mp hsorted).2.1).1
  rw [hcons, hlist, orderedInsert_append_right (by simpa using hfront),
    orderedInsert_eq_cons hback]

/-- If all elements with a property stand strictly before all others in the order,
sorting sorts the two groups apart. -/
theorem mergeSort_eq_append (htrans : ∀ a b c, le a b → le b c → le a c)
    (htotal : ∀ a b, le a b || le b a) {p : β → Bool} {list : List β}
    (hfirst : ∀ a ∈ list, ∀ b ∈ list, p a → ¬ p b → ¬ le b a) :
    list.mergeSort le =
      (list.filter p).mergeSort le ++ (list.filter (!p ·)).mergeSort le := by
  induction list with
  | nil => simp
  | cons a list ih =>
      have hrest := ih fun x hx y hy => hfirst x (List.mem_cons_of_mem _ hx) y
        (List.mem_cons_of_mem _ hy)
      rw [mergeSort_cons_eq htrans htotal, hrest]
      by_cases ha : p a
      · have hback : ∀ b ∈ (list.filter (!p ·)).mergeSort le, le a b := by
          intro b hb
          obtain ⟨hmem, hpb⟩ := List.mem_filter.mp (List.mem_mergeSort.mp hb)
          have hnot := hfirst a List.mem_cons_self b
            (List.mem_cons_of_mem _ hmem) ha (by simpa using hpb)
          simpa [hnot] using htotal a b
        rw [orderedInsert_append_left hback, ← mergeSort_cons_eq htrans htotal,
          List.filter_cons_of_pos ha, List.filter_cons_of_neg (by simpa using ha)]
      · have hfront : ∀ b ∈ (list.filter p).mergeSort le, ¬ le a b := by
          intro b hb
          obtain ⟨hmem, hpb⟩ := List.mem_filter.mp (List.mem_mergeSort.mp hb)
          exact hfirst b (List.mem_cons_of_mem _ hmem) a List.mem_cons_self
            hpb ha
        rw [orderedInsert_append_right hfront,
          ← mergeSort_cons_eq htrans htotal, List.filter_cons_of_neg ha,
          List.filter_cons_of_pos (by simpa using ha)]

end Sorting

/-! ## Selecting candidates -/

namespace Candidate

variable {ι : Type}

theorem rank_trans (a b c : Candidate ι Float)
    (hab : Score.rank b.internalCoupling a.internalCoupling = true)
    (hbc : Score.rank c.internalCoupling b.internalCoupling = true) :
    Score.rank c.internalCoupling a.internalCoupling = true :=
  Double.rank_trans hbc hab

/-- Selecting from the candidates that have a property which marks the best ones
is selecting from all and keeping those with the property. -/
theorem select_filter {p : Candidate ι Float → Bool}
    {candidates : List (Candidate ι Float)}
    (hbest : ∀ a ∈ candidates, ∀ b ∈ candidates, p a → ¬ p b →
      ¬ Score.rank a.internalCoupling b.internalCoupling) (cap : ℕ) :
    (select cap (candidates.filter p)).Perm
        ((select cap candidates).filter p) ∧
      (cap < (candidates.filter p).length →
        select cap (candidates.filter p) = select cap candidates) := by
  have hlength := List.length_filter_le p candidates
  by_cases hfew : candidates.length ≤ cap
  · have hfewer : (candidates.filter p).length ≤ cap := by omega
    unfold select
    rw [if_pos hfew, if_pos hfewer]
    exact ⟨List.Perm.refl _, fun hmany => by omega⟩
  · have hsplit := mergeSort_eq_append rank_trans
      (fun a b => Double.rank_total b.internalCoupling a.internalCoupling) hbest
    unfold select
    rw [if_neg hfew, hsplit]
    generalize hfront : (candidates.filter p).mergeSort
      (fun a b => Score.rank b.internalCoupling a.internalCoupling) = front
    generalize hback : (candidates.filter (!p ·)).mergeSort
      (fun a b => Score.rank b.internalCoupling a.internalCoupling) = back
    have hperm : front.Perm (candidates.filter p) :=
      hfront ▸ List.mergeSort_perm _ _
    have hgood : ∀ a ∈ front, p a = true := by
      intro a ha
      exact (List.mem_filter.mp (hperm.mem_iff.mp ha)).2
    have hbad : ∀ b ∈ back, ¬ p b = true := by
      intro b hb
      rw [← hback, List.mem_mergeSort] at hb
      simpa using (List.mem_filter.mp hb).2
    by_cases hfewer : (candidates.filter p).length ≤ cap
    · -- all with the property are taken, and only others are left out
      have hwhole : front.take cap = front :=
        List.take_of_length_le (hperm.length_eq ▸ hfewer)
      have hkept : front.filter p = front := List.filter_eq_self.mpr hgood
      have hdropped : (back.take (cap - front.length)).filter p = [] :=
        List.filter_eq_nil_iff.mpr fun b hb =>
          hbad b (List.mem_of_mem_take hb)
      rw [if_pos hfewer, List.take_append, List.filter_append, hwhole, hkept,
        hdropped, List.append_nil]
      exact ⟨hperm.symm, fun hmany => by omega⟩
    · -- the cap is reached before the first without the property
      have hcap : cap ≤ front.length := by
        rw [hperm.length_eq]
        omega
      have hkept : (front.take cap).filter p = front.take cap :=
        List.filter_eq_self.mpr fun a ha =>
          hgood a (List.mem_of_mem_take ha)
      rw [if_neg hfewer, List.take_append_of_le_length hcap, hkept]
      exact ⟨List.Perm.refl _, fun _ => rfl⟩

end Candidate

/-! ## Two thresholds -/

theorem Threshold.isNumber (threshold : Threshold Float) :
    Double.IsNumber threshold.value := by
  intro hnan
  have hzero : Score.le Score.zero threshold.value = true :=
    (Bool.and_eq_true_iff.mp threshold.inUnit).1
  change decide ((0 : Float) ≤ threshold.value) = true at hzero
  rw [decide_eq_true_iff] at hzero
  change decide ((0 : Float).toModel ≤ threshold.value.toModel) = true at hzero
  rw [decide_eq_true_iff] at hzero
  change (Float.toModel 0).unpack.le threshold.value.toModel.unpack = true
    at hzero
  rw [hnan] at hzero
  cases hzero

namespace Candidate

variable {ι : Type} {low high : Threshold Float}

theorem reaches_of_le {candidate : Candidate ι Float}
    (hcandidate : Double.IsMagnitude candidate.internalCoupling)
    (hle : low.value ≤ high.value) (h : candidate.reaches high) :
    candidate.reaches low := by
  have hlow := low.isNumber
  have hhigh := high.isNumber
  have hnumber := hcandidate.isNumber
  have hbetween := (Double.score_le_iff_place_le hlow hhigh).mp
    (decide_eq_true hle)
  have hreached := (Double.score_le_iff_place_le hhigh hnumber).mp h
  exact (Double.score_le_iff_place_le hlow hnumber).mpr
    (hbetween.trans hreached)

theorem length_select (cap : ℕ) (candidates : List (Candidate ι Float)) :
    (select cap candidates).length = min cap candidates.length := by
  unfold select
  split
  · rename_i hfew
    exact (min_eq_right hfew).symm
  · rw [List.length_take, List.length_mergeSort]

/-- A candidate that reaches a threshold ranks above one that does not. -/
theorem not_rank_of_reaches {a b : Candidate ι Float}
    (ha : Double.IsMagnitude a.internalCoupling)
    (hb : Double.IsMagnitude b.internalCoupling)
    (hreached : a.reaches high) (hmissed : ¬ b.reaches high) :
    ¬ Score.rank a.internalCoupling b.internalCoupling := by
  have hhigh := high.isNumber
  have hplace := (Double.score_le_iff_place_le hhigh ha.isNumber).mp hreached
  rw [ha.rank_iff hb]
  intro hle
  exact hmissed ((Double.score_le_iff_place_le hhigh hb.isNumber).mpr
    (hplace.trans hle))

end Candidate

theorem Clustering.identify_of_length_le {clustering : Clustering Float}
    {threshold : Threshold Float}
    (h : (clustering.candidates.filter (·.reaches threshold)).length ≤
      clustering.moduleCap) :
    clustering.identify threshold =
      clustering.candidates.filter (·.reaches threshold) :=
  if_pos h

/-- The modules at the higher of two thresholds are those at the lower one that
reach it, with the same scores.  If more candidates reach it than there may be
modules, the two lists of modules are equal. -/
theorem Clustering.identify_raised_threshold (coupling : Coupling)
    (names : Array String) (low high : Threshold Float)
    (hle : low.value ≤ high.value) :
    let clustering : Clustering Float := Clustering.run coupling names
    (clustering.identify high).Perm
        ((clustering.identify low).filter fun found =>
          decide (high.value ≤ found.internalCoupling)) ∧
      (clustering.moduleCap <
          (clustering.candidates.filter (·.reaches high)).length →
        clustering.identify high = clustering.identify low) := by
  intro clustering
  have hmagnitude : ∀ candidate ∈ clustering.candidates,
      Double.IsMagnitude candidate.internalCoupling :=
    fun candidate hmem => Clustering.isMagnitude_of_mem_candidates hmem
  have hnested : clustering.candidates.filter (·.reaches high) =
      (clustering.candidates.filter (·.reaches low)).filter
        (·.reaches high) := by
    rw [List.filter_filter]
    refine List.filter_congr ?_
    intro candidate hmem
    cases hhigh : candidate.reaches high with
    | false => rfl
    | true =>
        have hlow := Candidate.reaches_of_le (hmagnitude candidate hmem) hle
          hhigh
        rw [hlow]
        rfl
  have hbest : ∀ a ∈ clustering.candidates.filter (·.reaches low),
      ∀ b ∈ clustering.candidates.filter (·.reaches low),
      a.reaches high → ¬ b.reaches high →
      ¬ Score.rank a.internalCoupling b.internalCoupling := by
    intro a ha b hb
    exact Candidate.not_rank_of_reaches
      (hmagnitude a (List.mem_of_mem_filter ha))
      (hmagnitude b (List.mem_of_mem_filter hb))
  have hselect := Candidate.select_filter hbest clustering.moduleCap
  rw [← hnested] at hselect
  exact hselect

/-- All five clusters of `A`, `B` and `C` reach zero and minus zero, and there may
be only one module, which is that of `A` and `B` at both.  It is the only one that
reaches three tenths, and none reaches a half. -/
theorem Clustering.identify_raised_threshold_three_classes :
    let minusZero : Threshold Float := ⟨-0.0, by decide⟩
    let zero : Threshold Float := ⟨0, by decide⟩
    let tenths : Threshold Float := ⟨0.3, by decide +kernel⟩
    let half : Threshold Float := ⟨0.5, by decide +kernel⟩
    minusZero.value ≤ zero.value ∧ zero.value ≤ tenths.value ∧
      tenths.value ≤ half.value ∧
      ∃ coupling,
        Coupling.ofCounts? [(.of "A" "B", 6), (.of "A" "C", 2),
          (.of "B" "C", 2)] = some coupling ∧
        let clustering : Clustering Float := .run coupling #["A", "B", "C"]
        let returned (threshold : Threshold Float) :=
          (clustering.identify threshold).map fun found =>
            clustering.classNames found.cluster
        clustering.moduleCap <
            (clustering.candidates.filter (·.reaches zero)).length ∧
          clustering.identify zero = clustering.identify minusZero ∧
          (clustering.identify tenths).Perm
            ((clustering.identify zero).filter fun found =>
              decide (0.3 ≤ found.internalCoupling)) ∧
          (clustering.identify half).Perm
            ((clustering.identify tenths).filter fun found =>
              decide (0.5 ≤ found.internalCoupling)) ∧
          returned zero = [["A", "B"]] ∧ returned tenths = [["A", "B"]] ∧
          returned half = [] := by
  intro minusZero zero tenths half
  have hzeros : minusZero.value ≤ zero.value := by decide
  have htenths : zero.value ≤ tenths.value := by decide +kernel
  have hhalf : tenths.value ≤ half.value := by decide +kernel
  have hruns : (Coupling.ofCounts? [(.of "A" "B", 6), (.of "A" "C", 2),
      (.of "B" "C", 2)]).any (fun coupling =>
        let clustering : Clustering Float := .run coupling #["A", "B", "C"]
        let candidates := clustering.dendrogram.clusters.map fun cluster =>
          Candidate.mk cluster
            (cluster.internalCoupling clustering.linkage.score)
        candidates.length == 5 &&
          (candidates.filter (·.reaches tenths)).map (fun found =>
            clustering.classNames found.cluster) == [["A", "B"]] &&
          (candidates.filter (·.reaches half)).isEmpty) = true := by
    decide +kernel
  obtain ⟨coupling, hcoupling, hruns⟩ := (Option.any_eq_true _ _).mp hruns
  let clustering : Clustering Float := .run coupling #["A", "B", "C"]
  have hcandidates : clustering.candidates = _ :=
    candidates_eq_map coupling #["A", "B", "C"]
  simp only [Bool.and_eq_true, beq_iff_eq, List.isEmpty_iff] at hruns
  obtain ⟨⟨hfive, hpair⟩, hnone⟩ := hruns
  rw [← hcandidates] at hfive hpair hnone
  have hcap : clustering.moduleCap = 1 := (by decide : 3 / 2 = 1)
  have hfirst : (clustering.candidates.filter (·.reaches tenths)).length =
      clustering.moduleCap := by
    simpa [hcap] using congrArg List.length hpair
  have hall : clustering.candidates.filter (·.reaches zero) =
      clustering.candidates :=
    List.filter_eq_self.mpr fun _ hmem =>
      (isMagnitude_of_mem_candidates hmem).zero_le
  have hmany : clustering.moduleCap <
      (clustering.candidates.filter (·.reaches zero)).length := by
    rw [hall, hfive, hcap]
    decide
  have hraised := (identify_raised_threshold coupling #["A", "B", "C"] zero
    tenths htenths).1
  -- the only module at zero is not lost on the way up, as one is left there
  have hsame : (clustering.identify zero).filter (fun found =>
      decide (0.3 ≤ found.internalCoupling)) = clustering.identify zero := by
    refine List.filter_sublist.eq_of_length ?_
    rw [← hraised.length_eq, identify_of_length_le hfirst.le, hfirst, identify,
      Candidate.length_select, min_eq_left hmany.le]
  have htenthsReturned : (clustering.identify tenths).map (fun found =>
      clustering.classNames found.cluster) = [["A", "B"]] := by
    rw [identify_of_length_le hfirst.le]
    exact hpair
  have hzeroReturned := hraised.map fun found =>
    clustering.classNames found.cluster
  rw [hsame, htenthsReturned] at hzeroReturned
  have hhalfReturned : (clustering.identify half).map (fun found =>
      clustering.classNames found.cluster) = [] := by
    rw [identify_of_length_le (by rw [hnone]; exact Nat.zero_le _), hnone]
    rfl
  exact ⟨hzeros, htenths, hhalf, coupling, hcoupling, hmany,
    (identify_raised_threshold coupling _ minusZero zero hzeros).2 hmany,
    hraised, (identify_raised_threshold coupling _ tenths half hhalf).1,
    (List.singleton_perm.mp hzeroReturned).symm, htenthsReturned,
    hhalfReturned⟩

end ModuleRecovery
