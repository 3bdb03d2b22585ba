import ModuleRecovery.Proofs.Score.Ranking

/-!
# Ranked pairs

A ranking lists every counted pair once, with its count and the share that the
count has in the total.  It is sorted by falling score, and since the sort is
stable and starts from the order of pairs, pairs of one score stay in that order.
-/

namespace ModuleRecovery

/-- Sorting keeps the order of the elements that it does not have to change. -/
theorem pairwise_mergeSort_of_pairwise {β : Type} {le : β → β → Bool}
    (htrans : ∀ a b c, le a b → le b c → le a c)
    (htotal : ∀ a b, le a b || le b a) {R : β → β → Prop} {list : List β}
    (h : list.Pairwise R) :
    (list.mergeSort le).Pairwise fun a b => le a b ∧ (le b a → R a b) := by
  induction list with
  | nil => simp
  | cons first rest ih =>
      obtain ⟨hfirst, hrest⟩ := List.pairwise_cons.mp h
      obtain ⟨front, back, hcons, hsplit, hfront⟩ :=
        List.mergeSort_cons htrans htotal first rest
      have hsorted := List.pairwise_mergeSort htrans htotal (first :: rest)
      have hapart := ih hrest
      rw [hsplit, List.pairwise_append] at hapart
      rw [hcons, List.pairwise_append, List.pairwise_cons] at hsorted
      obtain ⟨hfrontApart, hbackApart, hacross⟩ := hapart
      obtain ⟨-, ⟨hback, -⟩, hbefore⟩ := hsorted
      rw [hcons, List.pairwise_append, List.pairwise_cons]
      refine ⟨hfrontApart, ⟨?_, hbackApart⟩, ?_⟩
      · intro b hb
        have hmem : b ∈ rest.mergeSort le := by
          rw [hsplit]
          exact List.mem_append_right _ hb
        exact ⟨hback b hb, fun _ => hfirst b (List.mem_mergeSort.mp hmem)⟩
      · intro a ha b hb
        rcases List.mem_cons.mp hb with rfl | hb
        · refine ⟨hbefore a ha b List.mem_cons_self, ?_⟩
          intro hle
          have hnot := hfront a ha
          rw [hle] at hnot
          cases hnot
        · exact hacross a ha b hb

theorem ClassPair.compare_eq_lt_iff (p q : ClassPair) :
    compare p q = .lt ↔
      p.first < q.first ∨ p.first = q.first ∧ p.second < q.second := by
  rw [ClassPair.compare_eq]
  unfold compareLex compareOn
  rw [Ordering.then_eq_lt, compare_lt_iff_lt, compare_eq_iff_eq,
    compare_lt_iff_lt]

namespace Coupling

variable {α : Type} [Score α]

/-! ## The listed pairs -/

theorem toList_normalized (coupling : Coupling) :
    (coupling.normalized : PairScores α).toList =
      coupling.raw.toList.map fun entry =>
        (entry.1, coupling.share entry.2) := by
  unfold normalized
  split
  · exact Std.ExtTreeMap.toList_map
  · rename_i htotal
    have hempty : coupling.raw.toList = [] := by
      rw [List.eq_nil_iff_forall_not_mem]
      rintro ⟨pair, count⟩ hentry
      exact htotal (total_pos_of_getElem?
        (Std.ExtTreeMap.mem_toList_iff_getElem?_eq_some.mp hentry))
    simp [hempty]

theorem pairs_eq (coupling : Coupling) :
    (coupling.pairs : List (RankedPair α)) =
      coupling.raw.toList.map fun entry =>
        ⟨entry.1, entry.2, coupling.share entry.2⟩ := by
  unfold pairs
  rw [toList_normalized, List.map_map]
  refine List.map_congr_left ?_
  rintro ⟨pair, count⟩ hentry
  have hcount := Std.ExtTreeMap.mem_toList_iff_getElem?_eq_some.mp hentry
  simp [Std.ExtTreeMap.getD_eq_getD_getElem?, hcount]

theorem mem_pairs_iff (coupling : Coupling) (entry : RankedPair α) :
    entry ∈ coupling.pairs ↔
      coupling.raw[entry.pair]? = some entry.raw ∧
        entry.score = coupling.share entry.raw := by
  rcases entry with ⟨pair, raw, score⟩
  simp [pairs_eq, eq_comm]

theorem pairwise_pairs (coupling : Coupling) :
    (coupling.pairs : List (RankedPair α)).Pairwise fun p q =>
      compare p.pair q.pair = .lt := by
  rw [pairs_eq, List.pairwise_map]
  exact Std.ExtTreeMap.ordered_keys_toList

theorem ranked_perm (coupling : Coupling) :
    (coupling.ranked : List (RankedPair α)).Perm coupling.pairs :=
  List.mergeSort_perm _ _

theorem length_ranked (coupling : Coupling) :
    (coupling.ranked : List (RankedPair α)).length =
      (coupling.normalized : PairScores α).size := by
  rw [coupling.ranked_perm.length_eq, pairs, List.length_map,
    Std.ExtTreeMap.length_toList]

theorem sum_raw_ranked (coupling : Coupling) :
    ((coupling.ranked : List (RankedPair α)).map RankedPair.raw).sum =
      coupling.total := by
  rw [(coupling.ranked_perm.map RankedPair.raw).sum_eq, pairs_eq,
    List.map_map, coupling.total_eq, PairCounts.sum_eq]
  rfl

theorem rawBetween_of_getElem? {coupling : Coupling} {pair : ClassPair}
    {count : ℕ} (h : coupling.raw[pair]? = some count) :
    coupling.rawBetween pair.first pair.second = count := by
  have hne := beq_eq_false_iff_ne.mp (coupling.proper pair count h).1
  rw [rawBetween, if_neg hne, ClassPair.of_first_second,
    Std.ExtTreeMap.getD_eq_getD_getElem?, h]
  rfl

theorem between_of_getElem? {coupling : Coupling} {pair : ClassPair}
    {count : ℕ} (h : coupling.raw[pair]? = some count) :
    (coupling.between pair.first pair.second : α) = coupling.share count := by
  have hne := beq_eq_false_iff_ne.mp (coupling.proper pair count h).1
  rw [between, scoreIn, if_neg hne, ClassPair.of_first_second,
    Std.ExtTreeMap.getD_eq_getD_getElem?, getElem?_normalized, h]
  rfl

/-! ## Their order -/

open Double in
/-- Ranked pairs stand in the order of falling scores, those of one score in the
order of pairs. -/
theorem pairwise_ranked (coupling : Coupling) :
    (coupling.ranked : List (RankedPair Float)).Pairwise fun p q =>
      q.score < p.score ∨
        p.score = q.score ∧ compare p.pair q.pair = .lt := by
  have htrans : ∀ p q r : RankedPair Float,
      Score.rank q.score p.score = true → Score.rank r.score q.score = true →
        Score.rank r.score p.score = true :=
    fun _ _ _ hpq hqr => rank_trans hqr hpq
  have hsorted := pairwise_mergeSort_of_pairwise htrans
    (fun p q => rank_total q.score p.score) coupling.pairwise_pairs
  have hmagnitude : ∀ p ∈ (coupling.ranked : List (RankedPair Float)),
      IsMagnitude p.score := by
    intro p hp
    obtain ⟨hraw, hscore⟩ :=
      (coupling.mem_pairs_iff p).mp (coupling.ranked_perm.mem_iff.mp hp)
    rw [hscore, ← between_of_getElem? hraw]
    exact coupling.isMagnitude_between _ _
  refine hsorted.imp_of_mem ?_
  intro p q hp hq hpq
  rcases (hmagnitude q hq).lt_or_eq_of_rank (hmagnitude p hp) hpq.1 with
    hlt | ⟨heq, hqp⟩
  · exact .inl hlt
  · exact .inr ⟨heq.symm, hpq.2 hqp⟩

end Coupling

end ModuleRecovery
