import ModuleRecovery.Proofs.Coupling.Sums
import ModuleRecovery.Proofs.Score.Nearest
import ModuleRecovery.Proofs.Score.Positive

/-!
# Rankings by exact counts

A ranking compares scores, which are rounded.  As long as the counts have a sum
below `2 ^ 53`, rounding neither swaps two different counts nor makes them level,
so the ranking is that of the counts themselves.
-/

namespace ModuleRecovery.Coupling

open Double

variable {coupling : Coupling}

theorem between_lt_between (htotal : coupling.total < 2 ^ 53)
    {a b c d : String}
    (h : coupling.rawBetween a b < coupling.rawBetween c d) :
    (coupling.between a b : Float) < coupling.between c d := by
  have hle := coupling.rawBetween_le_total c d
  have hpos : 0 < coupling.rawBetween c d := by omega
  rw [between_eq, between_eq, if_neg hpos.ne']
  split
  · have hnormal := normalIn_share hpos (hpos.trans_le hle)
    exact of_decide_eq_true (lt_of_positiveFrom hnormal.positiveFrom)
  · rename_i hcount
    exact share_lt_share (Nat.pos_of_ne_zero hcount) h hle htotal

/-- Scores are in the order of the counts. -/
theorem between_lt_between_iff (htotal : coupling.total < 2 ^ 53)
    (a b c d : String) :
    (coupling.between a b : Float) < coupling.between c d ↔
      coupling.rawBetween a b < coupling.rawBetween c d := by
  constructor
  · intro hlt
    have hfirst := (coupling.isMagnitude_between a b).isNumber
    have hsecond := (coupling.isMagnitude_between c d).isNumber
    by_contra hnot
    rcases (not_lt.mp hnot).lt_or_eq with hgt | heq
    · have hback := between_lt_between htotal hgt
      exact weakOrder_isNumber.irrefl _ hfirst
        (weakOrder_isNumber.trans _ _ _ hfirst hsecond hfirst
          (decide_eq_true hlt) (decide_eq_true hback))
    · rw [between_eq, between_eq, heq, ← between_eq] at hlt
      exact weakOrder_isNumber.irrefl _ hfirst (decide_eq_true hlt)
  · exact between_lt_between htotal

theorem between_eq_between_iff (htotal : coupling.total < 2 ^ 53)
    (a b c d : String) :
    (coupling.between a b : Float) = coupling.between c d ↔
      coupling.rawBetween a b = coupling.rawBetween c d := by
  constructor
  · intro heq
    have hnotLess := between_lt_between_iff htotal a b c d
    have hnotGreater := between_lt_between_iff htotal c d a b
    have hself := between_lt_between_iff htotal a b a b
    rw [← heq, hself] at hnotLess hnotGreater
    omega
  · intro heq
    rw [between_eq, between_eq, heq]

theorem of_mem_ranked {entry : RankedPair Float}
    (h : entry ∈ (coupling.ranked : List (RankedPair Float))) :
    entry.raw = coupling.rawBetween entry.pair.first entry.pair.second ∧
      entry.score = coupling.between entry.pair.first entry.pair.second := by
  obtain ⟨hraw, hscore⟩ :=
    (coupling.mem_pairs_iff entry).mp (coupling.ranked_perm.mem_iff.mp h)
  rw [rawBetween_of_getElem? hraw, between_of_getElem? hraw]
  exact ⟨rfl, hscore⟩

/-- A larger count stands first; pairs of one count stand in the order of their
names. -/
theorem pairwise_raw_ranked (htotal : coupling.total < 2 ^ 53) :
    (coupling.ranked : List (RankedPair Float)).Pairwise fun p q =>
      q.raw < p.raw ∨ p.raw = q.raw ∧
        (p.pair.first < q.pair.first ∨
          p.pair.first = q.pair.first ∧ p.pair.second < q.pair.second) := by
  refine coupling.pairwise_ranked.imp_of_mem ?_
  intro p q hp hq hpq
  obtain ⟨hpRaw, hpScore⟩ := of_mem_ranked hp
  obtain ⟨hqRaw, hqScore⟩ := of_mem_ranked hq
  rwa [hpScore, hqScore, between_lt_between_iff htotal,
    between_eq_between_iff htotal, ← hpRaw, ← hqRaw,
    ClassPair.compare_eq_lt_iff] at hpq

theorem exists_mem_ranked_iff {counts : List (ClassPair × ℕ)}
    (hsums : Sums counts coupling.raw) (pair : ClassPair) (n : ℕ) :
    (∃ p ∈ (coupling.ranked : List (RankedPair Float)),
        p.pair = pair ∧ p.raw = n) ↔
      pair.isReflexive = false ∧ 0 < n ∧ n = given counts (· == pair) := by
  have hlisted : (∃ p ∈ (coupling.ranked : List (RankedPair Float)),
      p.pair = pair ∧ p.raw = n) ↔ coupling.raw[pair]? = some n := by
    constructor
    · rintro ⟨p, hp, rfl, rfl⟩
      exact ((coupling.mem_pairs_iff p).mp
        (coupling.ranked_perm.mem_iff.mp hp)).1
    · intro hraw
      refine ⟨⟨pair, n, coupling.share n⟩, ?_, rfl, rfl⟩
      exact coupling.ranked_perm.mem_iff.mpr
        ((coupling.mem_pairs_iff _).mpr ⟨hraw, rfl⟩)
  rw [hlisted, hsums pair]
  cases hpair : pair.isReflexive with
  | true => simp
  | false =>
      by_cases hzero : given counts (· == pair) = 0
      · simp only [hzero, Bool.false_or, beq_self_eq_true, ↓reduceIte,
          reduceCtorEq, false_iff, true_and]
        omega
      · have hbeq := beq_eq_false_iff_ne.mpr hzero
        simp only [hbeq, Bool.or_false, Bool.false_eq_true, ↓reduceIte,
          Option.some.injEq, true_and]
        omega

/-- Counts with a sum below `2 ^ 53` are ranked as they are: each pair of different
classes for which anything is given is listed with the exact sum of its counts,
larger sums first and equal ones by names.  Scores are in the order of the counts,
and equal only where these are. -/
theorem ranked_by_exact_counts (counts : List (ClassPair × ℕ))
    (h : given counts (!·.isReflexive) < 2 ^ 53) :
    ∃ coupling, ofCounts? counts = some coupling ∧
      (coupling.ranked : List (RankedPair Float)).Pairwise (fun p q =>
        q.raw < p.raw ∨ p.raw = q.raw ∧
          (p.pair.first < q.pair.first ∨
            p.pair.first = q.pair.first ∧
              p.pair.second < q.pair.second)) ∧
      (∀ pair n,
        (∃ p ∈ (coupling.ranked : List (RankedPair Float)),
            p.pair = pair ∧ p.raw = n) ↔
          pair.isReflexive = false ∧ 0 < n ∧ n = given counts (· == pair)) ∧
      (∀ p ∈ (coupling.ranked : List (RankedPair Float)),
        p.raw = coupling.rawBetween p.pair.first p.pair.second ∧
          p.score = coupling.between p.pair.first p.pair.second) ∧
      (∀ a b c d, (coupling.between a b : Float) < coupling.between c d ↔
        coupling.rawBetween a b < coupling.rawBetween c d) ∧
      ∀ a b c d, (coupling.between a b : Float) = coupling.between c d ↔
        coupling.rawBetween a b = coupling.rawBetween c d := by
  rcases ofCounts?_cases counts with ⟨coupling, hcoupling, hsums⟩ | ⟨-, hlarge⟩
  · have htotal : coupling.total < 2 ^ 53 := by
      rw [total_eq_given hcoupling]
      exact h
    exact ⟨coupling, hcoupling, pairwise_raw_ranked htotal,
      exists_mem_ranked_iff hsums, fun _ hp => of_mem_ranked hp,
      between_lt_between_iff htotal, between_eq_between_iff htotal⟩
  · unfold maxCount at hlarge
    omega

/-- The two largest counts that differ by one. -/
theorem ranked_by_exact_counts_adjacent :
    let counts := [(ClassPair.of "a" "b", 2 ^ 52 - 1),
      (ClassPair.of "b" "c", 2 ^ 52)]
    given counts (!·.isReflexive) < 2 ^ 53 ∧
      ∃ coupling, ofCounts? counts = some coupling ∧
        ∀ a b c d, (coupling.between a b : Float) < coupling.between c d ↔
          coupling.rawBetween a b < coupling.rawBetween c d := by
  intro counts
  have hsum : given counts (!·.isReflexive) < 2 ^ 53 := by decide
  obtain ⟨coupling, hcoupling, -, -, -, horder, -⟩ :=
    ranked_by_exact_counts counts hsum
  exact ⟨hsum, coupling, hcoupling, horder⟩

end ModuleRecovery.Coupling
