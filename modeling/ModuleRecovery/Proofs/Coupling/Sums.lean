import ModuleRecovery.Proofs.Coupling.Ranked
import ModuleRecovery.Proofs.Coupling.Tally

/-!
# Sums of given counts

Counts are given for pairs in any order, a pair possibly several times.  A sum
that does not fit may show while the counts of one pair are added up, or only when
the pairs are added up.  In both cases the counts given for pairs of two different
classes have a sum that does not fit, and when that sum fits nothing is refused.
What comes out holds the exact sums, so it depends on nothing but these: neither
on the order of the counts nor on how they are split.
-/

namespace ModuleRecovery

/-- The pair of the two names, in whichever order they stand. -/
def ClassPair.joins (a b : String) (pair : ClassPair) : Bool :=
  pair.first == a && pair.second == b || pair.first == b && pair.second == a

theorem ClassPair.joins_eq (a b : String) (pair : ClassPair) :
    pair.joins a b = (pair == ClassPair.of a b) := by
  rw [Bool.eq_iff_iff, beq_iff_eq]
  conv_rhs => rw [← pair.of_first_second, ClassPair.of_eq_of_iff]
  simp [joins]

namespace Coupling

/-! ## What is given -/

/-- The sum of the counts that are given for the pairs with a property. -/
def given (counts : List (ClassPair × ℕ)) (p : ClassPair → Bool) : ℕ :=
  ((counts.filter fun entry => p entry.1).map Prod.snd).sum

variable {counts others : List (ClassPair × ℕ)} {p q : ClassPair → Bool}

@[simp] theorem given_nil (p : ClassPair → Bool) : given [] p = 0 :=
  rfl

@[simp] theorem given_cons (entry : ClassPair × ℕ)
    (counts : List (ClassPair × ℕ)) (p : ClassPair → Bool) :
    given (entry :: counts) p =
      (if p entry.1 then entry.2 else 0) + given counts p := by
  by_cases hp : p entry.1 <;> simp [given, hp]

@[simp] theorem given_append (counts others : List (ClassPair × ℕ))
    (p : ClassPair → Bool) :
    given (counts ++ others) p = given counts p + given others p := by
  simp [given]

theorem given_eq_of_perm (h : counts.Perm others) (p : ClassPair → Bool) :
    given counts p = given others p :=
  ((h.filter _).map _).sum_eq

theorem given_le_given (h : ∀ pair, p pair = true → q pair = true) :
    given counts p ≤ given counts q := by
  induction counts with
  | nil => simp
  | cons entry counts ih =>
      rw [given_cons, given_cons]
      apply Nat.add_le_add _ ih
      by_cases hp : p entry.1 = true
      · simp [hp, h _ hp]
      · simp [hp]

theorem given_split (pair : ClassPair) (parts : List ℕ)
    (p : ClassPair → Bool) :
    given (parts.map (pair, ·)) p = if p pair then parts.sum else 0 := by
  by_cases hp : p pair <;> simp [given, hp, List.filter_map, Function.comp_def]

/-- What is given for the pairs with a property is given for the one or the other
of them. -/
theorem given_eq_sum (keys : Finset ClassPair)
    (hkeys : ∀ pair ∈ keys, p pair = true)
    (hcounts : ∀ entry ∈ counts, p entry.1 = true → entry.2 ≠ 0 →
      entry.1 ∈ keys) :
    given counts p = ∑ pair ∈ keys, given counts (· == pair) := by
  induction counts with
  | nil => simp
  | cons entry counts ih =>
      obtain ⟨hentry, hrest⟩ := List.forall_mem_cons.mp hcounts
      have hsingle : ∑ pair ∈ keys, (if entry.1 = pair then entry.2 else 0) =
          if entry.1 ∈ keys then entry.2 else 0 :=
        Finset.sum_ite_eq keys entry.1 fun _ => entry.2
      simp only [given_cons, beq_iff_eq, Finset.sum_add_distrib, hsingle,
        ← ih hrest, Nat.add_right_cancel_iff]
      by_cases hmem : entry.1 ∈ keys
      · simp [hmem, hkeys _ hmem]
      · by_cases hp : p entry.1 = true
        · have hzero : entry.2 = 0 := by
            by_contra hne
            exact hmem (hentry hp hne)
          simp [hzero]
        · simp [hmem, hp]

/-! ## Adding up -/

/-- The counts are the sums of what is given for each pair of two different
classes; a pair for which nothing is given has no count. -/
def Sums (counts : List (ClassPair × ℕ)) (raw : PairCounts) : Prop :=
  ∀ pair, raw[pair]? =
    if pair.isReflexive || given counts (· == pair) == 0 then none
    else some (given counts (· == pair))

variable {raw : PairCounts}

theorem sums_empty : Sums [] ∅ := by
  intro pair
  simp

theorem Sums.getD_eq (h : Sums counts raw) {pair : ClassPair}
    (hpair : pair.isReflexive = false) :
    raw.getD pair 0 = given counts (· == pair) := by
  rw [Std.ExtTreeMap.getD_eq_getD_getElem?, h pair]
  by_cases hzero : given counts (· == pair) = 0 <;> simp [hpair, hzero]

theorem Sums.mem_iff (h : Sums counts raw) (pair : ClassPair) :
    pair ∈ raw ↔
      pair.isReflexive = false ∧ 0 < given counts (· == pair) := by
  rw [Std.ExtTreeMap.mem_iff_isSome_getElem?, h pair]
  cases hpair : pair.isReflexive with
  | true => simp
  | false =>
      by_cases hzero : given counts (· == pair) = 0
      · simp [hzero]
      · simp [hzero, Nat.pos_of_ne_zero hzero]

theorem Sums.skip (h : Sums counts raw) {entry : ClassPair × ℕ}
    (hentry : entry.1.isReflexive = true ∨ entry.2 = 0) :
    Sums (counts ++ [entry]) raw := by
  intro pair
  rw [h pair]
  by_cases heq : entry.1 = pair
  · subst heq
    rcases hentry with hentry | hentry <;> simp [hentry]
  · simp [heq]

theorem Sums.insert (h : Sums counts raw) {entry : ClassPair × ℕ}
    (hpair : entry.1.isReflexive = false) (hcount : entry.2 ≠ 0) :
    Sums (counts ++ [entry])
      (raw.insert entry.1 (raw.getD entry.1 0 + entry.2)) := by
  intro pair
  rw [Std.ExtTreeMap.getElem?_insert, h.getD_eq hpair]
  simp only [Std.LawfulEqCmp.compare_eq_iff_eq]
  by_cases heq : entry.1 = pair
  · subst heq
    simp [hpair, hcount]
  · rw [if_neg heq, h pair]
    simp [heq]

/-- Adding an entry keeps the sums, or what is given for its pair does not fit. -/
theorem Sums.addPair? (h : Sums counts raw) (entry : ClassPair × ℕ) :
    (∃ next, Coupling.addPair? raw entry = some next ∧
        Sums (counts ++ [entry]) next) ∨
      Coupling.addPair? raw entry = none ∧ entry.1.isReflexive = false ∧
        maxCount < given (counts ++ [entry]) (· == entry.1) := by
  unfold Coupling.addPair?
  by_cases hskip : entry.1.isReflexive || entry.2 == 0
  · rw [if_pos hskip]
    exact .inl ⟨raw, rfl, h.skip (by simpa using hskip)⟩
  · rw [if_neg hskip]
    simp only [Bool.or_eq_true, beq_iff_eq, not_or, Bool.not_eq_true] at hskip
    obtain ⟨hpair, hcount⟩ := hskip
    by_cases hfits : raw.getD entry.1 0 + entry.2 ≤ maxCount
    · exact .inl ⟨_, increase?_of_le hfits, h.insert hpair hcount⟩
    · refine .inr ⟨?_, hpair, ?_⟩
      · simp [increase?, addCounts?, hfits]
      · rw [h.getD_eq hpair, not_le] at hfits
        simpa using hfits

theorem given_singleton_le (counts : List (ClassPair × ℕ)) {pair : ClassPair}
    (hpair : pair.isReflexive = false) :
    given counts (· == pair) ≤ given counts (!·.isReflexive) := by
  apply given_le_given
  intro other hother
  simpa [beq_iff_eq.mp hother] using hpair

theorem foldlM_addPair?_cases (counts : List (ClassPair × ℕ)) :
    (∃ raw, counts.foldlM Coupling.addPair? ∅ = some raw ∧ Sums counts raw) ∨
      counts.foldlM Coupling.addPair? ∅ = none ∧
        maxCount < given counts (!·.isReflexive) := by
  -- from the last entry, so that the sums of the entries before it are at hand
  induction counts using List.reverseRecOn with
  | nil => exact .inl ⟨∅, rfl, sums_empty⟩
  | append_singleton counts entry ih =>
      rw [List.foldlM_append]
      rcases ih with ⟨raw, hraw, hsums⟩ | ⟨hnone, hlarge⟩
      · rw [hraw]
        rcases hsums.addPair? entry with
          ⟨next, hnext, hsums⟩ | ⟨hnone, hpair, hlarge⟩
        · refine .inl ⟨next, ?_, hsums⟩
          simp [hnext]
        · refine .inr ⟨?_, hlarge.trans_le (given_singleton_le _ hpair)⟩
          simp [hnone]
      · refine .inr ⟨?_, ?_⟩
        · simp [hnone]
        · rw [given_append]
          omega

theorem Sums.sum_eq (h : Sums counts raw) :
    raw.sum = given counts (!·.isReflexive) := by
  have hcounts : raw.toList.map Prod.snd =
      raw.keys.map fun pair => given counts (· == pair) := by
    rw [← Std.ExtTreeMap.map_fst_toList_eq_keys, List.map_map]
    apply List.map_congr_left
    rintro ⟨pair, count⟩ hentry
    have hcount := Std.ExtTreeMap.mem_toList_iff_getElem?_eq_some.mp hentry
    rw [h pair] at hcount
    split at hcount
    · cases hcount
    · exact (Option.some.inj hcount).symm
  rw [PairCounts.sum_eq, hcounts,
    ← List.sum_toFinset _ Std.ExtTreeMap.nodup_keys]
  symm
  apply given_eq_sum
  · intro pair hpair
    rw [List.mem_toFinset, Std.ExtTreeMap.mem_keys, h.mem_iff] at hpair
    simp [hpair.1]
  · intro entry hentry hpair hcount
    have hpair : entry.1.isReflexive = false := by simpa using hpair
    rw [List.mem_toFinset, Std.ExtTreeMap.mem_keys, h.mem_iff]
    refine ⟨hpair, ?_⟩
    have hle : entry.2 ≤ given counts (· == entry.1) :=
      List.le_sum_of_mem (List.mem_map_of_mem
        (List.mem_filter.mpr ⟨hentry, beq_self_eq_true _⟩))
    omega

theorem ofProper?_eq_none {hproper : raw.Proper} (hsum : maxCount < raw.sum) :
    ofProper? raw hproper = none := by
  cases hcoupling : ofProper? raw hproper with
  | none => rfl
  | some coupling =>
      have hle := coupling.total_le
      rw [coupling.total_eq, raw_eq_of_ofProper? hcoupling] at hle
      omega

/-- The coupling holds the sums, or there is none because what is given for
different classes does not fit. -/
theorem ofCounts?_cases (counts : List (ClassPair × ℕ)) :
    (∃ coupling, ofCounts? counts = some coupling ∧
        Sums counts coupling.raw) ∨
      ofCounts? counts = none ∧ maxCount < given counts (!·.isReflexive) := by
  unfold ofCounts?
  split
  · rename_i hnone
    rcases foldlM_addPair?_cases counts with ⟨raw, hraw, -⟩ | ⟨-, hlarge⟩
    · cases hnone.symm.trans hraw
    · exact .inr ⟨rfl, hlarge⟩
  · rename_i raw hraw
    rcases foldlM_addPair?_cases counts with ⟨other, hother, hsums⟩ | ⟨hnone, -⟩
    · cases hraw.symm.trans hother
      by_cases hfits : raw.sum ≤ maxCount
      · obtain ⟨coupling, hcoupling, hkept⟩ := exists_ofProper?
          (proper_foldlM_addPair? PairCounts.proper_empty hraw) hfits
        exact .inl ⟨coupling, hcoupling, hkept ▸ hsums⟩
      · rw [not_le] at hfits
        exact .inr ⟨ofProper?_eq_none hfits, hsums.sum_eq ▸ hfits⟩
    · cases hraw.symm.trans hnone

theorem sums_of_ofCounts? {coupling : Coupling}
    (h : ofCounts? counts = some coupling) : Sums counts coupling.raw := by
  rcases ofCounts?_cases counts with ⟨other, hother, hsums⟩ | ⟨hnone, -⟩
  · cases h.symm.trans hother
    exact hsums
  · cases h.symm.trans hnone

theorem total_eq_given {coupling : Coupling}
    (h : ofCounts? counts = some coupling) :
    coupling.total = given counts (!·.isReflexive) := by
  rw [coupling.total_eq, (sums_of_ofCounts? h).sum_eq]

theorem ofCounts?_eq_none_iff (counts : List (ClassPair × ℕ)) :
    ofCounts? counts = none ↔ maxCount < given counts (!·.isReflexive) := by
  constructor
  · intro hnone
    rcases ofCounts?_cases counts with ⟨coupling, hcoupling, -⟩ | ⟨-, hlarge⟩
    · cases hnone.symm.trans hcoupling
    · exact hlarge
  · intro hlarge
    cases hcoupling : ofCounts? counts with
    | none => rfl
    | some coupling =>
        have hle := coupling.total_le
        rw [total_eq_given hcoupling] at hle
        omega

/-! ## What the sums determine -/

theorem eq_of_raw_eq {coupling other : Coupling}
    (h : coupling.raw = other.raw) : coupling = other := by
  have htotal : coupling.total = other.total := by
    rw [coupling.total_eq, other.total_eq, h]
  cases coupling
  cases other
  cases h
  cases htotal
  rfl

theorem Sums.eq_of_given_eq {other : PairCounts} (h : Sums counts raw)
    (hother : Sums others other)
    (hgiven : ∀ pair, pair.isReflexive = false →
      given counts (· == pair) = given others (· == pair)) :
    raw = other := by
  apply Std.ExtTreeMap.ext_getElem?
  intro pair
  rw [h pair, hother pair]
  cases hpair : pair.isReflexive with
  | true => simp
  | false => rw [hgiven pair hpair]

theorem given_isReflexive_eq
    (hgiven : ∀ pair, pair.isReflexive = false →
      given counts (· == pair) = given others (· == pair)) :
    given counts (!·.isReflexive) = given others (!·.isReflexive) := by
  -- both are sums over the same pairs, those of either list
  let keys := ((counts ++ others).map Prod.fst).toFinset.filter
    fun pair => pair.isReflexive = false
  have hkeys : ∀ pair ∈ keys, (!pair.isReflexive) = true := by
    simp [keys]
  have hmem : ∀ entry ∈ counts ++ others, (!entry.1.isReflexive) = true →
      entry.2 ≠ 0 → entry.1 ∈ keys := by
    intro entry hentry hpair _
    rw [Finset.mem_filter, List.mem_toFinset]
    exact ⟨List.mem_map_of_mem hentry, by simpa using hpair⟩
  rw [given_eq_sum keys hkeys fun entry hentry =>
      hmem entry (List.mem_append_left _ hentry),
    given_eq_sum keys hkeys fun entry hentry =>
      hmem entry (List.mem_append_right _ hentry)]
  apply Finset.sum_congr rfl
  intro pair hpair
  exact hgiven pair (Finset.mem_filter.mp hpair).2

theorem ofCounts?_eq_of_given_eq
    (hgiven : ∀ pair, pair.isReflexive = false →
      given counts (· == pair) = given others (· == pair)) :
    ofCounts? counts = ofCounts? others := by
  have htotal := given_isReflexive_eq hgiven
  cases hcoupling : ofCounts? counts with
  | none =>
      rw [ofCounts?_eq_none_iff, htotal, ← ofCounts?_eq_none_iff] at hcoupling
      exact hcoupling.symm
  | some coupling =>
      cases hother : ofCounts? others with
      | none =>
          rw [ofCounts?_eq_none_iff, ← htotal, ← ofCounts?_eq_none_iff,
            hcoupling] at hother
          cases hother
      | some other =>
          have hraw := (sums_of_ofCounts? hcoupling).eq_of_given_eq
            (sums_of_ofCounts? hother) hgiven
          rw [eq_of_raw_eq hraw]

theorem share_rat (coupling : Coupling) (count : ℕ) :
    (coupling.share count : ℚ) = count / coupling.total :=
  rfl

theorem sum_normalized_rat_eq (coupling : Coupling) :
    ((coupling.normalized : PairScores ℚ).toList.map Prod.snd).sum =
      coupling.total / coupling.total := by
  have hshares : (coupling.normalized : PairScores ℚ).toList.map Prod.snd =
      coupling.raw.toList.map fun entry =>
        (entry.2 : ℚ) * (coupling.total : ℚ)⁻¹ := by
    rw [toList_normalized, List.map_map]
    apply List.map_congr_left
    intro entry _
    exact (coupling.share_rat entry.2).trans (div_eq_mul_inv _ _)
  have hsum : (coupling.raw.toList.map fun entry => (entry.2 : ℚ)).sum =
      coupling.total := by
    rw [coupling.total_eq, PairCounts.sum_eq, Nat.cast_list_sum, List.map_map]
    rfl
  rw [hshares, List.sum_map_mul_right, hsum, div_eq_mul_inv]

theorem mem_normalized_iff_mem_raw {α : Type} [Score α] (coupling : Coupling)
    (pair : ClassPair) :
    pair ∈ (coupling.normalized : PairScores α) ↔ pair ∈ coupling.raw := by
  rw [Std.ExtTreeMap.mem_iff_isSome_getElem?, getElem?_normalized,
    Option.isSome_map, ← Std.ExtTreeMap.mem_iff_isSome_getElem?]

/-- Counts are refused exactly when those given for pairs of different classes
have a sum that does not fit.  Otherwise every sum is exact, and the coupling
depends neither on the order of the counts nor on how they are split. -/
theorem ofCounts?_exact_sums (counts : List (ClassPair × ℕ)) :
    (ofCounts? counts = none ↔ maxCount < given counts (!·.isReflexive)) ∧
      (∀ coupling, ofCounts? counts = some coupling →
        (∀ a b, a ≠ b →
          coupling.rawBetween a b = given counts (·.joins a b)) ∧
        coupling.total = (coupling.raw.toList.map Prod.snd).sum ∧
        coupling.total = given counts (!·.isReflexive) ∧
        (0 < coupling.total →
          ((coupling.normalized : PairScores ℚ).toList.map Prod.snd).sum = 1) ∧
        (∀ pair, pair ∈ (coupling.normalized : PairScores Float) ↔
          pair ∈ coupling.raw) ∧
        ∀ pair, pair ∈ coupling.raw ↔
          pair.isReflexive = false ∧ 0 < given counts (· == pair)) ∧
      (∀ others, others.Perm counts → ofCounts? others = ofCounts? counts) ∧
      ∀ (before after : List (ClassPair × ℕ)) (pair : ClassPair)
        (parts : List ℕ), counts = before ++ (pair, parts.sum) :: after →
        ofCounts? (before ++ parts.map (pair, ·) ++ after) =
          ofCounts? counts := by
  refine ⟨ofCounts?_eq_none_iff counts, ?_, ?_, ?_⟩
  · intro coupling hcoupling
    have hsums := sums_of_ofCounts? hcoupling
    refine ⟨?_, ?_, total_eq_given hcoupling, ?_,
      coupling.mem_normalized_iff_mem_raw, hsums.mem_iff⟩
    · intro a b hab
      have hpair : (ClassPair.of a b).isReflexive = false := by
        rw [ClassPair.isReflexive_of]
        exact beq_eq_false_iff_ne.mpr hab
      simp only [ClassPair.joins_eq]
      rw [rawBetween, if_neg hab, hsums.getD_eq hpair]
    · rw [coupling.total_eq, PairCounts.sum_eq]
    · intro htotal
      have hne : (coupling.total : ℚ) ≠ 0 := by exact_mod_cast htotal.ne'
      rw [sum_normalized_rat_eq, div_self hne]
  · intro others hperm
    apply ofCounts?_eq_of_given_eq
    intro pair _
    exact given_eq_of_perm hperm _
  · intro before after pair parts hcounts
    apply ofCounts?_eq_of_given_eq
    intro other _
    rw [hcounts]
    simp only [given_append, given_split, given_cons]
    omega

end Coupling

end ModuleRecovery
