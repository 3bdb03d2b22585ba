import ModuleRecovery.Cluster
import ModuleRecovery.Proofs.Coupling.Tally
import ModuleRecovery.Proofs.Resolution.Owners

/-!
# Coupling as a count of calls

The coupling of two classes is what one would count by hand: the calls in the
methods of the one whose signature the other owns, in both directions.  The
analysis gets there through an index of methods, lists of owners, pairs of names
and two passes over a map.  Since the names of a model are distinct, a pair of
names stands for one pair of positions, so nothing is counted for another pair
and nothing is lost.
-/

namespace ModuleRecovery

/-- The number of calls in the methods of one class whose signature another class
owns. -/
def ClassUnit.callsInto (unit other : ClassUnit) : Nat :=
  (unit.methods.map fun method => method.calls.toList.countP other.owns).sum

/-- The number of calls between different classes of a model, a call being
counted for each class that owns its signature. -/
def ClassModel.crossCalls (model : ClassModel) : Nat :=
  ((orderedPairs model.classes).map fun (a, b) =>
    a.callsInto b + b.callsInto a).sum

/-! ## Pairs of names -/

/-- Classes of distinct names, two at a time, give distinct pairs. -/
theorem nodup_map_of_orderedPairs {units : List ClassUnit}
    (hdistinct : (units.map ClassUnit.qualifiedName).Nodup) :
    ((orderedPairs units).map fun (a, b) =>
      ClassPair.of a.qualifiedName b.qualifiedName).Nodup := by
  induction units with
  | nil => exact List.nodup_nil
  | cons first rest ih =>
      rw [List.map_cons, List.nodup_cons] at hdistinct
      rw [orderedPairs, List.map_append, List.map_map, List.nodup_append]
      refine ⟨?_, ih hdistinct.2, ?_⟩
      · have hinjective :
            Function.Injective (ClassPair.of first.qualifiedName) := by
          intro x y hxy
          rcases ClassPair.of_eq_of_iff.mp hxy with ⟨-, hxy⟩ | ⟨hy, hx⟩
          · exact hxy
          · exact hx.trans hy
        have hnodup := hdistinct.2.map hinjective
        rw [List.map_map] at hnodup
        exact hnodup
      · intro p hp q hq heq
        obtain ⟨x, -, rfl⟩ := List.mem_map.mp hp
        obtain ⟨⟨c, d⟩, hcd, rfl⟩ := List.mem_map.mp hq
        obtain ⟨i, j, -, hi, hj⟩ := exists_getElem?_of_mem_orderedPairs hcd
        rcases ClassPair.of_eq_of_iff.mp heq with ⟨hc, -⟩ | ⟨hd, -⟩
        · exact hdistinct.1
            (hc ▸ List.mem_map_of_mem (List.mem_of_getElem? hi))
        · exact hdistinct.1
            (hd ▸ List.mem_map_of_mem (List.mem_of_getElem? hj))

namespace ClassModel

variable {model : ClassModel}

/-- The pairs of two different classes. -/
def pairs (model : ClassModel) : List ClassPair :=
  (orderedPairs model.classes).map fun (a, b) =>
    ClassPair.of a.qualifiedName b.qualifiedName

theorem nodup_pairs (model : ClassModel) : model.pairs.Nodup :=
  nodup_map_of_orderedPairs model.distinct

theorem of_mem_pairs {i j : Nat} {a b : ClassUnit} (hij : i ≠ j)
    (hi : model.classes[i]? = some a) (hj : model.classes[j]? = some b) :
    ClassPair.of a.qualifiedName b.qualifiedName ∈ model.pairs := by
  rcases Nat.lt_or_gt_of_ne hij with hlt | hgt
  · exact List.mem_map.mpr
      ⟨(a, b), mem_orderedPairs_of_getElem? hlt hi hj, rfl⟩
  · rw [ClassPair.of_comm]
    exact List.mem_map.mpr
      ⟨(b, a), mem_orderedPairs_of_getElem? hgt hj hi, rfl⟩

theorem qualifiedName_ne_of_mem_orderedPairs {a b : ClassUnit}
    (h : (a, b) ∈ orderedPairs model.classes) :
    a.qualifiedName ≠ b.qualifiedName := by
  obtain ⟨i, j, hij, hi, hj⟩ := exists_getElem?_of_mem_orderedPairs h
  intro hname
  have hsame := (name?_eq_some_iff hj).mp
    ((name?_of_getElem? hi).trans (congrArg some hname))
  omega

theorem isReflexive_of_mem_pairs {pair : ClassPair}
    (h : pair ∈ model.pairs) : pair.isReflexive = false := by
  obtain ⟨⟨a, b⟩, hab, rfl⟩ := List.mem_map.mp h
  rw [ClassPair.isReflexive_of, beq_eq_false_iff_ne]
  exact qualifiedName_ne_of_mem_orderedPairs hab

/-! ## The pairs of one call -/

/-- The pairs that a call is counted for: its class with each other owner of its
signature. -/
def pairsFrom (model : ClassModel) (call : MethodId × CallSignature) :
    List ClassPair :=
  ((model.owners call.2).filter (· != call.1.classIndex)).filterMap
    fun owner => do
      let caller ← model.name? call.1.classIndex
      let owner ← model.name? owner
      return ClassPair.of caller owner

theorem pairsOf_resolve (model : ClassModel) :
    Coupling.pairsOf model model.resolve.found =
      (Resolution.recordedCalls model.methods).flatMap model.pairsFrom := by
  rw [found_resolve]
  unfold Coupling.pairsOf
  induction Resolution.recordedCalls model.methods with
  | nil => rfl
  | cons call calls ih =>
      rw [List.filterMap_cons, List.flatMap_cons, ← ih]
      by_cases hnone : model.owners call.2 = []
      · simp [hnone, pairsFrom]
      · simp [hnone, pairsFrom, name?]

theorem pairsFrom_pair_iff {i j c k : Nat} {a b : ClassUnit}
    (hi : model.classes[i]? = some a) (hj : model.classes[j]? = some b) :
    (do
        let caller ← model.name? c
        let owner ← model.name? k
        return ClassPair.of caller owner) =
        some (ClassPair.of a.qualifiedName b.qualifiedName) ↔
      c = i ∧ k = j ∨ c = j ∧ k = i := by
  rw [← name?_eq_some_iff hi, ← name?_eq_some_iff hj,
    ← name?_eq_some_iff hi, ← name?_eq_some_iff hj]
  cases model.name? c <;> cases model.name? k <;>
    simp [ClassPair.of_eq_of_iff]

theorem count_owners {j : Nat} {b : ClassUnit}
    (hj : model.classes[j]? = some b) (signature : CallSignature) :
    (model.owners signature).count j =
      if b.owns signature then 1 else 0 := by
  have hmem : j ∈ model.owners signature ↔ b.owns signature := by
    simp [mem_owners, hj]
  rw [(model.nodup_owners signature).count]
  simp only [hmem]

/-- A call adds one to the pair of its class and each other owner. -/
theorem count_pairsFrom {i j : Nat} {a b : ClassUnit} (hij : i ≠ j)
    (hi : model.classes[i]? = some a) (hj : model.classes[j]? = some b)
    (call : MethodId × CallSignature) :
    (model.pairsFrom call).count
        (ClassPair.of a.qualifiedName b.qualifiedName) =
      (if call.1.classIndex == i && b.owns call.2 then 1 else 0) +
        if call.1.classIndex == j && a.owns call.2 then 1 else 0 := by
  have hcount : (model.pairsFrom call).count
        (ClassPair.of a.qualifiedName b.qualifiedName) =
      (model.owners call.2).countP fun k =>
        call.1.classIndex == i && k == j ||
          call.1.classIndex == j && k == i := by
    unfold pairsFrom
    rw [List.count_filterMap, List.countP_filter]
    refine List.countP_congr ?_
    intro k _
    rw [Bool.and_eq_true, beq_iff_eq, pairsFrom_pair_iff hi hj, bne_iff_ne]
    simp only [Bool.or_eq_true, Bool.and_eq_true, beq_iff_eq]
    omega
  rw [hcount]
  by_cases hci : call.1.classIndex = i
  · have hne : (i == j) = false := beq_eq_false_iff_ne.mpr hij
    simpa [hci, hne, List.count_eq_countP] using count_owners hj call.2
  · by_cases hcj : call.1.classIndex = j
    · have hne : (j == i) = false := beq_eq_false_iff_ne.mpr hij.symm
      simpa [hcj, hne, List.count_eq_countP] using count_owners hi call.2
    · simp [hci, hcj]

theorem mem_pairs_of_mem_pairsFrom {call : MethodId × CallSignature}
    {pair : ClassPair} (h : pair ∈ model.pairsFrom call) :
    pair ∈ model.pairs := by
  obtain ⟨owner, howner, hpair⟩ := List.mem_filterMap.mp h
  have hne := (List.mem_filter.mp howner).2
  obtain ⟨x, hx, hpair⟩ := Option.bind_eq_some_iff.mp hpair
  obtain ⟨y, hy, hpair⟩ := Option.bind_eq_some_iff.mp hpair
  cases hpair
  obtain ⟨a, ha, rfl⟩ := exists_of_name?_eq_some hx
  obtain ⟨b, hb, rfl⟩ := exists_of_name?_eq_some hy
  exact of_mem_pairs (bne_iff_ne.mp hne).symm ha hb

/-! ## All calls -/

theorem sum_map_zipIdx_single {β : Type} (list : List β) (start i : Nat)
    (f : β → Nat) :
    ((list.zipIdx start).map fun entry =>
      if entry.2 = start + i then f entry.1 else 0).sum =
        (list[i]?.map f).getD 0 := by
  induction list generalizing start i with
  | nil => simp
  | cons first rest ih =>
      rw [List.zipIdx_cons, List.map_cons, List.sum_cons]
      cases i with
      | zero =>
          have hrest : ((rest.zipIdx (start + 1)).map fun entry =>
              if entry.2 = start + 0 then f entry.1 else 0).sum = 0 := by
            refine List.sum_eq_zero ?_
            intro n hn
            obtain ⟨⟨x, k⟩, hk, rfl⟩ := List.mem_map.mp hn
            have hle := List.le_snd_of_mem_zipIdx hk
            exact if_neg (by dsimp only at hle ⊢; omega)
          rw [hrest]
          simp
      | succ i =>
          have hrest := ih (start + 1) i
          rw [show start + 1 + i = start + (i + 1) by omega] at hrest
          simpa using hrest

theorem countP_recordedCalls_methodsOf (k i : Nat) (unit : ClassUnit)
    (p : CallSignature → Bool) :
    (Resolution.recordedCalls (methodsOf k unit)).countP
        (fun call => call.1.classIndex == i && p call.2) =
      if k = i then
        (unit.methods.map fun method => method.calls.toList.countP p).sum
      else 0 := by
  unfold Resolution.recordedCalls methodsOf
  rw [List.countP_flatMap, List.map_map]
  by_cases hki : k = i
  · have hmethods : unit.methods.map
          (fun method => method.calls.toList.countP p) =
        unit.methods.zipIdx.map
          fun entry => entry.1.calls.toList.countP p := by
      conv_lhs => rw [← unit.methods.zipIdx_map_fst 0]
      rw [List.map_map]
      rfl
    rw [if_pos hki, hmethods]
    congr 1
    refine List.map_congr_left ?_
    intro entry _
    simp [List.countP_map, Function.comp_def, hki]
  · rw [if_neg hki]
    refine List.sum_eq_zero ?_
    intro n hn
    obtain ⟨entry, -, rfl⟩ := List.mem_map.mp hn
    simp [List.countP_map, Function.comp_def, hki]

theorem countP_recordedCalls {i : Nat} {a : ClassUnit}
    (hi : model.classes[i]? = some a) (p : CallSignature → Bool) :
    (Resolution.recordedCalls model.methods).countP
        (fun call => call.1.classIndex == i && p call.2) =
      (a.methods.map fun method => method.calls.toList.countP p).sum := by
  have hsingle := sum_map_zipIdx_single model.classes 0 i fun unit =>
    (unit.methods.map fun method => method.calls.toList.countP p).sum
  rw [hi, Nat.zero_add] at hsingle
  have hcalls : Resolution.recordedCalls model.methods =
      model.classes.zipIdx.flatMap fun entry =>
        Resolution.recordedCalls (methodsOf entry.2 entry.1) :=
    List.flatMap_assoc
  rw [hcalls, List.countP_flatMap]
  simpa [Function.comp_def, countP_recordedCalls_methodsOf] using hsingle

/-- A pair is listed once for each call from one of its classes into the
other. -/
theorem count_pairsOf_resolve {i j : Nat} {a b : ClassUnit} (hij : i ≠ j)
    (hi : model.classes[i]? = some a) (hj : model.classes[j]? = some b) :
    (Coupling.pairsOf model model.resolve.found).count
        (ClassPair.of a.qualifiedName b.qualifiedName) =
      a.callsInto b + b.callsInto a := by
  unfold ClassUnit.callsInto
  rw [pairsOf_resolve, ← countP_recordedCalls hi, ← countP_recordedCalls hj]
  induction Resolution.recordedCalls model.methods with
  | nil => rfl
  | cons call calls ih =>
      rw [List.flatMap_cons, List.count_append, ih, List.countP_cons,
        List.countP_cons, count_pairsFrom hij hi hj]
      omega

theorem mem_pairs_of_mem_pairsOf {pair : ClassPair}
    (h : pair ∈ Coupling.pairsOf model model.resolve.found) :
    pair ∈ model.pairs := by
  rw [pairsOf_resolve] at h
  obtain ⟨call, -, hpair⟩ := List.mem_flatMap.mp h
  exact mem_pairs_of_mem_pairsFrom hpair

theorem length_pairsOf_resolve (model : ClassModel) :
    (Coupling.pairsOf model model.resolve.found).length =
      model.crossCalls := by
  rw [← PairCounts.sum_map_count_eq_length model.nodup_pairs
    fun _ => mem_pairs_of_mem_pairsOf]
  unfold pairs crossCalls
  rw [List.map_map]
  congr 1
  refine List.map_congr_left ?_
  rintro ⟨a, b⟩ hab
  obtain ⟨i, j, hij, hi, hj⟩ := exists_getElem?_of_mem_orderedPairs hab
  exact count_pairsOf_resolve (by omega) hi hj

end ClassModel

/-! ## The coupling of a model -/

namespace Coupling

theorem rawBetween_of_tallies {coupling : Coupling} {pairs : List ClassPair}
    (h : coupling.raw.Tallies pairs) {a b : String} (hab : a ≠ b) :
    coupling.rawBetween a b = pairs.count (.of a b) := by
  rw [rawBetween, if_neg hab, h.getD_eq]

/-- The coupling of a model is the direct count of its calls. -/
theorem ofResolution?_counts_calls (model : ClassModel)
    (hfits : model.crossCalls ≤ maxCount) :
    ∃ coupling, ofResolution? model model.resolve = some coupling ∧
      (∀ a ∈ model.classes, ∀ b ∈ model.classes,
        a.qualifiedName ≠ b.qualifiedName →
        coupling.rawBetween a.qualifiedName b.qualifiedName =
          a.callsInto b + b.callsInto a) ∧
      coupling.total =
        ((orderedPairs model.classes).map fun (a, b) =>
          coupling.rawBetween a.qualifiedName b.qualifiedName).sum ∧
      (∀ pair, pair ∈ (coupling.normalized : PairScores Float) ↔
        0 < coupling.rawBetween pair.first pair.second) ∧
      tally? (pairsOf model model.resolve.found) = some coupling.raw ∧
      coupling.total = (pairsOf model model.resolve.found).length := by
  have hpairs : ∀ pair ∈ pairsOf model model.resolve.found,
      pair.isReflexive = false := by
    intro pair hpair
    exact ClassModel.isReflexive_of_mem_pairs
      (ClassModel.mem_pairs_of_mem_pairsOf hpair)
  rw [← model.length_pairsOf_resolve] at hfits
  obtain ⟨coupling, hcoupling, htally, htallies⟩ :=
    exists_ofResolution? hpairs hfits
  have hraw : ∀ a ∈ model.classes, ∀ b ∈ model.classes,
      a.qualifiedName ≠ b.qualifiedName →
      coupling.rawBetween a.qualifiedName b.qualifiedName =
        a.callsInto b + b.callsInto a := by
    intro a ha b hb hab
    obtain ⟨i, hi⟩ := List.mem_iff_getElem?.mp ha
    obtain ⟨j, hj⟩ := List.mem_iff_getElem?.mp hb
    have hij : i ≠ j := by
      rintro rfl
      cases hi.symm.trans hj
      exact hab rfl
    rw [rawBetween_of_tallies htallies hab]
    exact ClassModel.count_pairsOf_resolve hij hi hj
  have htotal : coupling.total =
      (pairsOf model model.resolve.found).length := by
    rw [coupling.total_eq, htallies.sum_eq]
  refine ⟨coupling, hcoupling, hraw, ?_, mem_normalized_iff coupling,
    htally, htotal⟩
  rw [htotal, model.length_pairsOf_resolve, ClassModel.crossCalls]
  congr 1
  refine List.map_congr_left ?_
  rintro ⟨a, b⟩ hab
  obtain ⟨i, j, -, hi, hj⟩ := exists_getElem?_of_mem_orderedPairs hab
  exact (hraw a (List.mem_of_getElem? hi) b (List.mem_of_getElem? hj)
    (ClassModel.qualifiedName_ne_of_mem_orderedPairs hab)).symm

/-- `A` and `C` own `save:1`, and `B` owns it twice; a method of `A` calls it, and
`B` calls back. -/
theorem ofResolution?_counts_calls_save :
    let saves : MethodUnit := ⟨"save", 1, 0, ∅⟩
    let a : ClassUnit :=
      ⟨"A", "", 0, [⟨"f", 0, 0, (∅ : CallSet).insert ⟨"save", 1⟩⟩, saves]⟩
    let b : ClassUnit :=
      ⟨"B", "", 0, [saves, saves, ⟨"g", 0, 0, (∅ : CallSet).insert ⟨"f", 0⟩⟩]⟩
    let c : ClassUnit := ⟨"C", "", 0, [saves]⟩
    let model := ClassModel.ofClasses [a, b, c]
    model.crossCalls ≤ maxCount ∧
      ∃ coupling, ofResolution? model model.resolve = some coupling ∧
        coupling.rawBetween "A" "B" = 2 ∧
        coupling.rawBetween "A" "C" = 1 ∧ coupling.total = 3 := by
  intro saves a b c model
  have hfits : model.crossCalls ≤ maxCount := by decide
  obtain ⟨coupling, hcoupling, hraw, -, -, -, htotal⟩ :=
    ofResolution?_counts_calls model hfits
  have ha : a ∈ model.classes := List.mem_of_getElem? (i := 0) rfl
  have hb : b ∈ model.classes := List.mem_of_getElem? (i := 1) rfl
  have hc : c ∈ model.classes := List.mem_of_getElem? (i := 2) rfl
  refine ⟨hfits, coupling, hcoupling, ?_, ?_, ?_⟩
  · exact hraw a ha b hb (by decide)
  · exact hraw a ha c hc (by decide)
  · rw [htotal, model.length_pairsOf_resolve]
    decide

end Coupling

end ModuleRecovery
