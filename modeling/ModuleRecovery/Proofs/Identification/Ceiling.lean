import ModuleRecovery.Proofs.Coupling.Sums
import ModuleRecovery.Proofs.Dendrogram.Monotone
import ModuleRecovery.Proofs.Identification.SharedCache

/-!
# The greatest internal coupling

The internal coupling of a cluster averages over all pairs of clusters in its
tree, also over those of which one contains the other.  Written as a sum over
pairs of classes, each score is weighted by how present its two classes are in
the tree: a class is present in every cluster that contains it, in proportion to
the size of the cluster.  Along the way from a class to the root the clusters
grow, so its presence in a tree of `m` classes is at most `(m + 1) / 2`.

All scores of different classes have sum one.  So the sum over the pairs of
clusters is at most `(m + 1) ^ 2 / 4 - 1 / m ^ 2`, where the last term is the
pair of the root with itself, which is not counted.  There are
`(2 * m - 1) * (m - 1)` pairs, and two thirds of that is never less.
-/

namespace ModuleRecovery

theorem sum_sum_eq_orderedPairs {β : Type} {f : β → β → ℚ}
    (hf : ∀ a b, f a b = f b a) (list : List β) :
    (list.map fun a => (list.map (f a)).sum).sum =
      2 * ((orderedPairs list).map fun p => f p.1 p.2).sum +
        (list.map fun a => f a a).sum := by
  induction list with
  | nil => simp [orderedPairs]
  | cons first rest ih =>
      have hcolumn : (rest.map fun a => f a first).sum =
          (rest.map (f first)).sum := by
        simp [hf _ first]
      simp only [orderedPairs, List.map_cons, List.sum_cons, List.map_append,
        List.sum_append, List.map_map, Function.comp_def, List.sum_map_add, ih,
        hcolumn]
      ring

theorem sum_map_eq_sum_count {ι : Type} [Fintype ι] [DecidableEq ι]
    (list : List ι) (f : ι → ℚ) :
    (list.map f).sum = ∑ x, (list.count x : ℚ) * f x := by
  rw [Finset.sum_list_map_count]
  simp only [nsmul_eq_mul]
  apply Finset.sum_subset (Finset.subset_univ _)
  intro x _ hx
  rw [List.mem_toFinset] at hx
  simp [List.count_eq_zero.mpr hx]

/-! ## Weighted scores -/

section Weighted

variable {ι : Type} [Fintype ι] {scores : ι → ι → ℚ}

/-- The sum of all scores, each weighted for its two items. -/
def weighted (scores : ι → ι → ℚ) (u v : ι → ℚ) : ℚ :=
  ∑ x, ∑ y, scores x y * (u x * v y)

theorem weighted_comm (hscores : ∀ x y, scores x y = scores y x)
    (u v : ι → ℚ) : weighted scores u v = weighted scores v u := by
  unfold weighted
  rw [Finset.sum_comm]
  apply Finset.sum_congr rfl
  intro y _
  apply Finset.sum_congr rfl
  intro x _
  rw [hscores, mul_comm (u x)]

theorem weighted_sum_left {β : Type} (u : β → ι → ℚ) (v : ι → ℚ)
    (list : List β) :
    (list.map fun b => weighted scores (u b) v).sum =
      weighted scores (fun x => (list.map (u · x)).sum) v := by
  induction list with
  | nil => simp [weighted]
  | cons first rest ih =>
      rw [List.map_cons, List.sum_cons, ih]
      simp [weighted, add_mul, mul_add, Finset.sum_add_distrib]

theorem weighted_sum_sum {β : Type} (hscores : ∀ x y, scores x y = scores y x)
    (u : β → ι → ℚ) (list : List β) :
    (list.map fun a => (list.map fun b => weighted scores (u a) (u b)).sum).sum =
      weighted scores (fun x => (list.map (u · x)).sum)
        (fun x => (list.map (u · x)).sum) := by
  have hrow : ∀ a, (list.map fun b => weighted scores (u a) (u b)).sum =
      weighted scores (u a) (fun x => (list.map (u · x)).sum) := by
    intro a
    simp only [weighted_comm hscores (u a)]
    exact weighted_sum_left u (u a) list
  simp only [hrow]
  exact weighted_sum_left u _ list

/-- Weights that differ by at most a bound on every pair weigh the scores at most
the bound more. -/
theorem weighted_sub_le {u v : ι → ℚ} {bound : ℚ}
    (hscores : ∀ x y, 0 ≤ scores x y)
    (hbound : ∀ x y, u x * u y - v x * v y ≤ bound) :
    weighted scores u u - weighted scores v v ≤
      bound * ∑ x, ∑ y, scores x y := by
  unfold weighted
  rw [Finset.mul_sum, ← Finset.sum_sub_distrib]
  apply Finset.sum_le_sum
  intro x _
  rw [Finset.mul_sum, ← Finset.sum_sub_distrib]
  apply Finset.sum_le_sum
  intro y _
  calc
    scores x y * (u x * u y) - scores x y * (v x * v y) =
        scores x y * (u x * u y - v x * v y) := by ring
    _ ≤ scores x y * bound :=
      mul_le_mul_of_nonneg_left (hbound x y) (hscores x y)
    _ = bound * scores x y := mul_comm _ _

end Weighted

/-! ## Trees of clusters -/

namespace Cluster

variable {ι : Type}

def treeTotal (scores : ι → ι → ℚ) (cluster : Cluster ι ℚ) : ℚ :=
  ((orderedPairs cluster.subtree).map fun p => p.1.average scores p.2).sum

theorem internalCoupling_rat (scores : ι → ι → ℚ) (cluster : Cluster ι ℚ) :
    cluster.internalCoupling scores =
      if cluster.subtree.length ≤ 1 then 0
      else cluster.treeTotal scores / pairTotal cluster.subtree.length := by
  unfold internalCoupling treeTotal
  dsimp only
  rw [Score.mean_rat]
  rfl

theorem pairTotal_subtree (cluster : Cluster ι ℚ) :
    (pairTotal cluster.subtree.length : ℚ) =
      (2 * cluster.size - 1) * (cluster.size - 1) := by
  obtain ⟨k, hk⟩ : ∃ k, cluster.size = k + 1 :=
    ⟨cluster.size - 1, (Nat.sub_add_cancel cluster.size_pos).symm⟩
  have hlength : cluster.subtree.length = 2 * k + 1 := by
    have hlength := cluster.length_subtree
    rw [← size, hk] at hlength
    omega
  have htotal : pairTotal (2 * k + 1) = (2 * k + 1) * k := by
    unfold pairTotal
    rw [Nat.add_sub_cancel, Nat.mul_left_comm,
      Nat.mul_div_cancel_left _ Nat.two_pos]
  rw [hlength, htotal, hk]
  push_cast
  ring

theorem inv_size_sq_le (cluster : Cluster ι ℚ) :
    (1 / (cluster.size : ℚ)) ^ 2 ≤ ((cluster.size + 1) / 2) ^ 2 := by
  have hsize : (1 : ℚ) ≤ cluster.size := Nat.one_le_cast.mpr cluster.size_pos
  have hinv : 1 / (cluster.size : ℚ) ≤ 1 := by
    rw [div_le_one (by linarith)]
    exact hsize
  apply pow_le_pow_left₀ (by positivity)
  linarith

theorem two_thirds_pairs {m : ℕ} (hm : 2 ≤ m) :
    (((m : ℚ) + 1) / 2) ^ 2 - (1 / (m : ℚ)) ^ 2 ≤
      2 / 3 * ((2 * m - 1) * (m - 1)) := by
  have hsquare : 0 ≤ (1 / (m : ℚ)) ^ 2 := sq_nonneg _
  rcases hm.eq_or_lt with rfl | hlarge
  · norm_num
  · have hthree : (3 : ℚ) ≤ m := by exact_mod_cast hlarge
    nlinarith

/-! ## Presence -/

variable [DecidableEq ι]

/-- The part of a cluster that an item makes up. -/
def part (cluster : Cluster ι ℚ) (x : ι) : ℚ :=
  cluster.members.count x / cluster.size

/-- The parts that an item makes up of all clusters in the tree. -/
def presence (cluster : Cluster ι ℚ) (x : ι) : ℚ :=
  (cluster.subtree.map (part · x)).sum

theorem presence_merge (id : ℕ) (left right : Cluster ι ℚ) (coupling : ℚ)
    (x : ι) :
    (merge id left right coupling).presence x =
      (merge id left right coupling).part x + left.presence x +
        right.presence x := by
  simp [presence, add_assoc]

theorem part_eq_zero {cluster : Cluster ι ℚ} {x : ι}
    (hx : x ∉ cluster.members) : cluster.part x = 0 := by
  simp [part, List.count_eq_zero.mpr hx]

theorem part_eq_inv {cluster : Cluster ι ℚ} (h : cluster.members.Nodup) {x : ι}
    (hx : x ∈ cluster.members) : cluster.part x = 1 / cluster.size := by
  simp [part, List.count_eq_one_of_mem h hx]

theorem presence_eq_zero {cluster : Cluster ι ℚ} {x : ι}
    (hx : x ∉ cluster.members) : cluster.presence x = 0 := by
  apply List.sum_eq_zero
  intro value hvalue
  obtain ⟨inner, hinner, rfl⟩ := List.mem_map.mp hvalue
  apply part_eq_zero
  intro hmem
  exact hx ((members_sublist_of_mem_subtree hinner).subset hmem)

theorem presence_nonneg (cluster : Cluster ι ℚ) (x : ι) :
    0 ≤ cluster.presence x := by
  apply List.sum_nonneg
  intro value hvalue
  obtain ⟨inner, -, rfl⟩ := List.mem_map.mp hvalue
  unfold part
  positivity

theorem presence_le {cluster : Cluster ι ℚ} (h : cluster.members.Nodup)
    (x : ι) : cluster.presence x ≤ (cluster.size + 1) / 2 := by
  induction cluster with
  | leaf id item =>
      have hcount : ([item].count x : ℚ) ≤ 1 := by
        exact_mod_cast List.count_le_length
      simpa [presence, part, size, members] using hcount
  | merge id left right coupling ihLeft ihRight =>
      have hleftSize : (1 : ℚ) ≤ left.size := Nat.one_le_cast.mpr left.size_pos
      have hrightSize : (1 : ℚ) ≤ right.size :=
        Nat.one_le_cast.mpr right.size_pos
      have hsize : ((merge id left right coupling).size : ℚ) =
          left.size + right.size := by
        rw [size_merge, Nat.cast_add]
      obtain ⟨hleft, hright, hdisjoint⟩ := List.nodup_append'.mp h
      have hroot : (merge id left right coupling).part x ≤ 1 / 2 := by
        by_cases hx : x ∈ (merge id left right coupling).members
        · rw [part_eq_inv h hx, hsize]
          apply one_div_le_one_div_of_le <;> linarith
        · rw [part_eq_zero hx]
          norm_num
      -- an item is in one part only, and the other part adds at least one half
      rw [presence_merge, hsize]
      by_cases hx : x ∈ left.members
      · rw [presence_eq_zero (hdisjoint hx)]
        linarith [ihLeft hleft]
      · rw [presence_eq_zero hx]
        linarith [ihRight hright]

theorem presence_mul_sub_le {cluster : Cluster ι ℚ}
    (h : cluster.members.Nodup) (x y : ι) :
    cluster.presence x * cluster.presence y - cluster.part x * cluster.part y ≤
      ((cluster.size + 1) / 2) ^ 2 - (1 / cluster.size) ^ 2 := by
  by_cases hmem : x ∈ cluster.members ∧ y ∈ cluster.members
  · rw [part_eq_inv h hmem.1, part_eq_inv h hmem.2, sq, sq]
    apply sub_le_sub_right
    apply mul_le_mul (presence_le h x) (presence_le h y)
      (cluster.presence_nonneg y)
    positivity
  · -- an item that is not there has neither a part nor a presence
    have hzero : cluster.presence x * cluster.presence y -
        cluster.part x * cluster.part y = 0 := by
      rcases not_and_or.mp hmem with hx | hy
      · simp [presence_eq_zero hx, part_eq_zero hx]
      · simp [presence_eq_zero hy, part_eq_zero hy]
    rw [hzero, sub_nonneg]
    exact cluster.inv_size_sq_le

/-! ## Two thirds -/

variable [Fintype ι] {scores : ι → ι → ℚ}

theorem average_eq_weighted (scores : ι → ι → ℚ)
    (a b : Cluster ι ℚ) :
    a.average scores b = weighted scores a.part b.part := by
  have ha : (a.size : ℚ) ≠ 0 := Nat.cast_ne_zero.mpr a.size_pos.ne'
  have hb : (b.size : ℚ) ≠ 0 := Nat.cast_ne_zero.mpr b.size_pos.ne'
  rw [average_rat, pairSum, sum_map_eq_sum_count, Finset.sum_div, weighted]
  apply Finset.sum_congr rfl
  intro x _
  rw [sum_map_eq_sum_count, Finset.mul_sum, Finset.sum_div]
  apply Finset.sum_congr rfl
  intro y _
  unfold part
  field_simp

theorem average_nonneg (hscores : ∀ x y, 0 ≤ scores x y)
    (a b : Cluster ι ℚ) : 0 ≤ a.average scores b := by
  rw [average_eq_weighted]
  unfold weighted part
  apply Finset.sum_nonneg
  intro x _
  apply Finset.sum_nonneg
  intro y _
  have hxy := hscores x y
  positivity

theorem treeTotal_nonneg (hscores : ∀ x y, 0 ≤ scores x y)
    (cluster : Cluster ι ℚ) : 0 ≤ cluster.treeTotal scores := by
  apply List.sum_nonneg
  intro value hvalue
  obtain ⟨p, -, rfl⟩ := List.mem_map.mp hvalue
  exact average_nonneg hscores p.1 p.2

theorem two_mul_treeTotal_le (hscores : ∀ x y, 0 ≤ scores x y)
    (hcomm : ∀ x y, scores x y = scores y x) (cluster : Cluster ι ℚ) :
    2 * cluster.treeTotal scores ≤
      weighted scores cluster.presence cluster.presence -
        weighted scores cluster.part cluster.part := by
  -- all clusters with all clusters: each pair twice, each cluster with itself
  have hall := sum_sum_eq_orderedPairs (average_comm hcomm) cluster.subtree
  have hweighted : (cluster.subtree.map fun a =>
      (cluster.subtree.map (a.average scores)).sum).sum =
        weighted scores cluster.presence cluster.presence := by
    have hrows : ∀ a : Cluster ι ℚ, a.average scores =
        fun b => weighted scores a.part b.part := by
      intro a
      funext b
      exact average_eq_weighted scores a b
    simp only [hrows]
    exact weighted_sum_sum hcomm part cluster.subtree
  -- of the clusters with themselves only the root is taken off
  have hroot : weighted scores cluster.part cluster.part ≤
      (cluster.subtree.map fun a => a.average scores a).sum := by
    rw [← average_eq_weighted]
    apply List.single_le_sum
    · intro value hvalue
      obtain ⟨a, -, rfl⟩ := List.mem_map.mp hvalue
      exact average_nonneg hscores a a
    · exact List.mem_map_of_mem cluster.mem_subtree_self
  unfold treeTotal
  linarith

/-- If the scores of all ordered pairs of items have a sum of at most two, no
cluster without repeated items has an internal coupling above two thirds. -/
theorem internalCoupling_mem (hscores : ∀ x y, 0 ≤ scores x y)
    (hcomm : ∀ x y, scores x y = scores y x)
    (hsum : ∑ x, ∑ y, scores x y ≤ 2) {cluster : Cluster ι ℚ}
    (h : cluster.members.Nodup) :
    0 ≤ cluster.internalCoupling scores ∧
      cluster.internalCoupling scores ≤ 2 / 3 := by
  rw [internalCoupling_rat]
  split
  · norm_num
  · rename_i hmany
    have htotal := cluster.treeTotal_nonneg hscores
    have hpairs : (0 : ℚ) < pairTotal cluster.subtree.length :=
      Nat.cast_pos.mpr (pairTotal_pos hmany)
    refine ⟨by positivity, ?_⟩
    have hsize : 2 ≤ cluster.size := by
      have hlength := cluster.length_subtree
      rw [← size] at hlength
      omega
    have htwice := (two_mul_treeTotal_le hscores hcomm cluster).trans
      (weighted_sub_le hscores (presence_mul_sub_le h))
    have hscaled := mul_le_mul_of_nonneg_left hsum
      (sub_nonneg.mpr cluster.inv_size_sq_le)
    have hthirds := two_thirds_pairs hsize
    rw [div_le_iff₀ hpairs, pairTotal_subtree]
    linarith

end Cluster

/-! ## The scores of different classes -/

namespace Coupling

theorem share_nonneg (coupling : Coupling) (count : ℕ) :
    0 ≤ (coupling.share count : ℚ) := by
  rw [share_rat]
  positivity

theorem between_nonneg (coupling : Coupling) (a b : String) :
    0 ≤ (coupling.between a b : ℚ) := by
  rcases @between_cases ℚ _ coupling a b with hzero | ⟨count, -, -, heq⟩
  · rw [hzero]
    rfl
  · rw [heq]
    exact coupling.share_nonneg count

def same (a b : String) : ℚ :=
  if a = b then 1 else 0

theorem sum_same_le_one {n : ℕ} {names : Fin n → String}
    (hnames : Function.Injective names) (a : String) :
    ∑ i, same (names i) a ≤ 1 := by
  unfold same
  rw [Finset.sum_boole]
  norm_cast
  rw [Finset.card_le_one]
  intro i hi j hj
  apply hnames
  rw [(Finset.mem_filter.mp hi).2, (Finset.mem_filter.mp hj).2]

theorem same_nonneg (a b : String) : 0 ≤ same a b := by
  unfold same
  split <;> norm_num

/-- How often the two names are those of the pair, in one of the two orders. -/
def matching (pair : ClassPair) (a b : String) : ℚ :=
  same a pair.first * same b pair.second +
    same a pair.second * same b pair.first

theorem matching_nonneg (pair : ClassPair) (a b : String) :
    0 ≤ matching pair a b := by
  unfold matching
  apply add_nonneg <;> exact mul_nonneg (same_nonneg _ _) (same_nonneg _ _)

theorem one_le_matching (a b : String) :
    1 ≤ matching (ClassPair.of a b) a b := by
  have hcrossed : 0 ≤ same a b * same b a :=
    mul_nonneg (same_nonneg a b) (same_nonneg b a)
  have hnames := (ClassPair.of a b).of_first_second
  rw [ClassPair.of_eq_of_iff] at hnames
  unfold matching
  rcases hnames with ⟨hfirst, hsecond⟩ | ⟨hfirst, hsecond⟩
  · rw [hfirst, hsecond]
    simpa [same] using hcrossed
  · rw [hfirst, hsecond]
    simpa [same] using hcrossed

theorem between_le_sum (coupling : Coupling) (a b : String) :
    (coupling.between a b : ℚ) ≤
      (coupling.raw.toList.map fun entry =>
        coupling.share entry.2 * matching entry.1 a b).sum := by
  have hterms : ∀ term ∈ coupling.raw.toList.map fun entry =>
      coupling.share entry.2 * matching entry.1 a b, (0 : ℚ) ≤ term := by
    intro term hterm
    obtain ⟨entry, -, rfl⟩ := List.mem_map.mp hterm
    exact mul_nonneg (coupling.share_nonneg _) (matching_nonneg _ _ _)
  by_cases hab : a = b
  · rw [hab, between_self]
    exact List.sum_nonneg (hab ▸ hterms)
  · cases hcount : coupling.raw[ClassPair.of a b]? with
    | none =>
        have hzero : (coupling.between a b : ℚ) = 0 := by
          simp [between, scoreIn, hab, Std.ExtTreeMap.getD_eq_getD_getElem?,
            getElem?_normalized, hcount, Score.zero]
        rw [hzero]
        exact List.sum_nonneg hterms
    | some count =>
        have hshare : (coupling.between a b : ℚ) = coupling.share count := by
          simp [between, scoreIn, hab, Std.ExtTreeMap.getD_eq_getD_getElem?,
            getElem?_normalized, hcount]
        have hmem := Std.ExtTreeMap.mem_toList_iff_getElem?_eq_some.mpr hcount
        calc
          (coupling.between a b : ℚ) = coupling.share count * 1 := by
            rw [hshare, mul_one]
          _ ≤ coupling.share count * matching (ClassPair.of a b) a b :=
            mul_le_mul_of_nonneg_left (one_le_matching a b)
              (coupling.share_nonneg count)
          _ ≤ _ := List.single_le_sum hterms _ (List.mem_map_of_mem hmem)

theorem sum_matching_le_two {n : ℕ} {names : Fin n → String}
    (hnames : Function.Injective names) (pair : ClassPair) :
    ∑ i, ∑ j, matching pair (names i) (names j) ≤ 2 := by
  have hproduct : ∀ u v : String,
      ∑ i, ∑ j, same (names i) u * same (names j) v ≤ 1 := by
    intro u v
    rw [← Finset.sum_mul_sum]
    apply mul_le_one₀ (sum_same_le_one hnames u) _ (sum_same_le_one hnames v)
    exact Finset.sum_nonneg fun i _ => same_nonneg _ _
  unfold matching
  simp only [Finset.sum_add_distrib]
  linarith [hproduct pair.first pair.second, hproduct pair.second pair.first]

theorem sum_sum_map {β : Type} {n : ℕ} (f : β → Fin n → ℚ) (list : List β) :
    ∑ i, (list.map (f · i)).sum = (list.map fun b => ∑ i, f b i).sum := by
  induction list with
  | nil => simp
  | cons first rest ih => simp [Finset.sum_add_distrib, ih]

/-- Each pair of different classes is met in two orders, so the scores of all
ordered pairs of classes have a sum of at most two. -/
theorem sum_between_le_two (coupling : Coupling) {n : ℕ}
    {names : Fin n → String} (hnames : Function.Injective names) :
    ∑ i, ∑ j, (coupling.between (names i) (names j) : ℚ) ≤ 2 := by
  calc
    ∑ i, ∑ j, (coupling.between (names i) (names j) : ℚ) ≤
        ∑ i, ∑ j, (coupling.raw.toList.map fun entry =>
          coupling.share entry.2 * matching entry.1 (names i) (names j)).sum :=
      Finset.sum_le_sum fun i _ => Finset.sum_le_sum fun j _ =>
        coupling.between_le_sum (names i) (names j)
    _ = (coupling.raw.toList.map fun entry => coupling.share entry.2 *
          ∑ i, ∑ j, matching entry.1 (names i) (names j)).sum := by
      simp only [sum_sum_map, Finset.mul_sum]
    _ ≤ (coupling.raw.toList.map fun entry =>
          (coupling.share entry.2 : ℚ) * 2).sum :=
      List.sum_le_sum fun entry _ => mul_le_mul_of_nonneg_left
        (sum_matching_le_two hnames entry.1) (coupling.share_nonneg entry.2)
    _ = ((coupling.normalized : PairScores ℚ).toList.map Prod.snd).sum * 2 := by
      rw [List.sum_map_mul_right, toList_normalized, List.map_map]
      rfl
    _ ≤ 2 := by
      rw [sum_normalized_rat_eq]
      linarith [div_self_le_one (coupling.total : ℚ)]

end Coupling

/-! ## Clusterings -/

namespace Clustering

theorem internalCoupling_run_mem (coupling : Coupling) {names : Array String}
    (hnames : names.toList.Nodup) {cluster : Cluster (Fin names.size) ℚ}
    (hcluster : cluster ∈ (run coupling names).dendrogram.clusters) :
    0 ≤ cluster.internalCoupling
        (Linkage.ofCoupling coupling names : Linkage names.size ℚ).score ∧
      cluster.internalCoupling
        (Linkage.ofCoupling coupling names : Linkage names.size ℚ).score ≤
          2 / 3 := by
  have hinjective : Function.Injective fun i : Fin names.size => names[i] := by
    intro i j hij
    exact Fin.ext ((hnames.getElem_inj_iff).mp hij)
  apply Cluster.internalCoupling_mem
  · intro i j
    rw [Linkage.score_ofCoupling]
    exact coupling.between_nonneg names[i] names[j]
  · exact Linkage.score_comm coupling names
  · simp only [Linkage.score_ofCoupling]
    exact coupling.sum_between_le_two hinjective
  · exact Dendrogram.nodup_members_of_mem_clusters
      (List.nodup_finRange names.size) hcluster

theorem identify_eq_nil (coupling : Coupling) {names : Array String}
    (hnames : names.toList.Nodup) {threshold : Threshold ℚ}
    (hthreshold : 2 / 3 < threshold.value) :
    (run coupling names).identify threshold = [] := by
  have hnone : (run coupling names).candidates.filter
      (·.reaches threshold) = [] := by
    rw [List.filter_eq_nil_iff, candidates_eq_map]
    intro candidate hcandidate hreaches
    obtain ⟨cluster, hcluster, rfl⟩ := List.mem_map.mp hcandidate
    have hle := (internalCoupling_run_mem coupling hnames hcluster).2
    exact absurd (of_decide_eq_true hreaches)
      (not_le.mpr (hle.trans_lt hthreshold))
  unfold identify
  rw [hnone]
  simp [Candidate.select]

/-- Over the rationals the internal coupling of a cluster is at least zero and at
most two thirds.  A value above two thirds and up to one is a threshold, but no
classes have a module that reaches it. -/
theorem internalCoupling_le_two_thirds (coupling : Coupling)
    (names : Array String) (hnames : names.toList.Nodup) :
    let clustering : Clustering ℚ := run coupling names
    (∀ cluster ∈ clustering.dendrogram.clusters,
        0 ≤ cluster.internalCoupling clustering.linkage.score ∧
          cluster.internalCoupling clustering.linkage.score ≤ 2 / 3) ∧
      ∀ value : ℚ, 2 / 3 < value → value ≤ 1 →
        ∃ threshold, Threshold.ofValue? value = some threshold ∧
          threshold.value = value ∧
          clustering.identify threshold = [] ∧
          ∀ (model : ClassModel) (counted : Coupling),
            Coupling.ofResolution? model model.resolve = some counted →
              (run counted model.names.toArray).identify threshold = [] := by
  intro clustering
  refine ⟨fun _ hcluster =>
    internalCoupling_run_mem coupling hnames hcluster, ?_⟩
  intro value hvalue hone
  have hunit : inUnitInterval value = true := by
    have hzero : 0 ≤ value := by linarith
    simp [inUnitInterval, Score.le, Score.zero, Score.ofNat, hzero, hone]
  refine ⟨⟨value, hunit⟩, dif_pos hunit, rfl, ?_, ?_⟩
  · exact identify_eq_nil coupling hnames hvalue
  · intro model counted _
    exact identify_eq_nil counted model.distinct hvalue

/-- Two classes that only call each other have the greatest internal coupling. -/
theorem internalCoupling_le_two_thirds_two_classes :
    ∃ coupling,
      Coupling.ofCounts? [(.of "A" "B", 1)] = some coupling ∧
      #["A", "B"].toList.Nodup ∧
      let clustering : Clustering ℚ := run coupling #["A", "B"]
      (∃ cluster ∈ clustering.dendrogram.clusters,
          cluster.internalCoupling clustering.linkage.score = 2 / 3) ∧
        ∃ threshold, Threshold.ofValue? (3 / 4 : ℚ) = some threshold ∧
          clustering.identify threshold = [] := by
  have hnames : #["A", "B"].toList.Nodup := by
    decide
  have hscores : (Coupling.ofCounts? [(.of "A" "B", 1)]).map (fun coupling =>
      (run coupling #["A", "B"]).dendrogram.clusters.map
        (Cluster.internalCoupling
          (Linkage.ofCoupling coupling #["A", "B"] : Linkage 2 ℚ).score)) =
      some [2 / 3, 0, 0] := by
    decide +kernel
  obtain ⟨coupling, hcoupling, hscores⟩ := Option.map_eq_some_iff.mp hscores
  refine ⟨coupling, hcoupling, hnames, ?_, ?_⟩
  · apply List.mem_map.mp
    exact hscores.symm ▸ List.mem_cons_self
  · obtain ⟨threshold, hthreshold, -, hnone, -⟩ :=
      (internalCoupling_le_two_thirds coupling #["A", "B"] hnames).2 (3 / 4)
        (by norm_num) (by norm_num)
    exact ⟨threshold, hthreshold, hnone⟩

end Clustering

end ModuleRecovery
