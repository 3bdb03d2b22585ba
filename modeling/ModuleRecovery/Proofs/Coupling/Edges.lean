import ModuleRecovery.Proofs.Coupling.Counting
import ModuleRecovery.Proofs.Resolution.Search

/-!
# Edges of the call graph and coupling

The call graph and the coupling are two views of one lookup.  An edge goes to the
first method that carries the signature of a call; the coupling counts the call
for every class that owns the signature.  The class of the first method is one of
these owners.  So the edges between two classes never outnumber the calls counted
for them, and they are as many when no signature has two owners to choose from.
-/

namespace ModuleRecovery

/-- The number of edges between methods of two classes, in either direction.  An
edge that was entered several times counts as often. -/
def CallGraph.edgesBetween (graph : CallGraph) (i j : Nat) : Nat :=
  graph.edges.toList.countP fun edge =>
    edge.1.classIndex == i && edge.2.classIndex == j ||
      edge.1.classIndex == j && edge.2.classIndex == i

namespace ClassModel

variable {model : ClassModel}

/-- No recorded call has a signature that two classes own. -/
def Unambiguous (model : ClassModel) : Prop :=
  ∀ call ∈ Resolution.recordedCalls model.methods,
    ∀ a ∈ model.classes, ∀ b ∈ model.classes,
      a.owns call.2 → b.owns call.2 → a.qualifiedName = b.qualifiedName

/-! ## The edge of one call -/

/-- The edge of a call runs between the classes at two positions. -/
def links (model : ClassModel) (i j : Nat)
    (call : MethodId × CallSignature) : Bool :=
  (model.firstCarrier? call.2).any fun first =>
    call.1.classIndex == i && first.classIndex == j ||
      call.1.classIndex == j && first.classIndex == i

theorem edgesBetween_resolve (model : ClassModel) (i j : Nat) :
    model.resolve.graph.edgesBetween i j =
      (Resolution.recordedCalls model.methods).countP (model.links i j) := by
  unfold CallGraph.edgesBetween
  rw [toList_edges_resolve, List.countP_filterMap]
  refine List.countP_congr ?_
  intro call _
  unfold links
  cases model.firstCarrier? call.2 <;> simp

section Call

variable {i j : Nat} {a b : ClassUnit} {call : MethodId × CallSignature}

/-- An edge into a class means that the class owns the signature. -/
theorem owns_of_links (hi : model.classes[i]? = some a)
    (hj : model.classes[j]? = some b) (h : model.links i j call) :
    call.1.classIndex = i ∧ b.owns call.2 ∨
      call.1.classIndex = j ∧ a.owns call.2 := by
  unfold links at h
  cases hfirst : model.firstCarrier? call.2 with
  | none => simp [hfirst] at h
  | some first =>
      obtain ⟨unit, hunit, howns⟩ := owns_of_firstCarrier? hfirst
      simp only [hfirst, Option.any_some, Bool.or_eq_true, Bool.and_eq_true,
        beq_iff_eq] at h
      rcases h with ⟨hcaller, hclass⟩ | ⟨hcaller, hclass⟩
      · rw [hclass, hj] at hunit
        cases hunit
        exact .inl ⟨hcaller, howns⟩
      · rw [hclass, hi] at hunit
        cases hunit
        exact .inr ⟨hcaller, howns⟩

/-- The first method that carries a signature is in the only class that owns
it. -/
theorem classIndex_of_unambiguous (hmodel : model.Unambiguous)
    (hcall : call ∈ Resolution.recordedCalls model.methods)
    (hj : model.classes[j]? = some b) (howns : b.owns call.2) :
    ∃ first, model.firstCarrier? call.2 = some first ∧
      first.classIndex = j := by
  obtain ⟨first, hfirst⟩ := exists_firstCarrier? hj howns
  obtain ⟨unit, hunit, hfirstOwns⟩ := owns_of_firstCarrier? hfirst
  have hname := hmodel call hcall unit (List.mem_of_getElem? hunit) b
    (List.mem_of_getElem? hj) hfirstOwns howns
  refine ⟨first, hfirst, (name?_eq_some_iff hj).mp ?_⟩
  rw [name?_of_getElem? hunit, hname]

theorem links_of_unambiguous (hmodel : model.Unambiguous)
    (hcall : call ∈ Resolution.recordedCalls model.methods)
    (hi : model.classes[i]? = some a) (hj : model.classes[j]? = some b)
    (h : call.1.classIndex = i ∧ b.owns call.2 ∨
      call.1.classIndex = j ∧ a.owns call.2) :
    model.links i j call := by
  unfold links
  rcases h with ⟨hcaller, howns⟩ | ⟨hcaller, howns⟩
  · obtain ⟨first, hfirst, hclass⟩ :=
      classIndex_of_unambiguous hmodel hcall hj howns
    simp [hfirst, hcaller, hclass]
  · obtain ⟨first, hfirst, hclass⟩ :=
      classIndex_of_unambiguous hmodel hcall hi howns
    simp [hfirst, hcaller, hclass]

/-- A call adds one to the count of two classes if it is a call from one of them
whose signature the other owns, and otherwise nothing. -/
theorem count_pairsFrom_eq_ite (hij : i ≠ j)
    (hi : model.classes[i]? = some a) (hj : model.classes[j]? = some b) :
    (model.pairsFrom call).count
        (ClassPair.of a.qualifiedName b.qualifiedName) =
      if call.1.classIndex = i ∧ b.owns call.2 ∨
        call.1.classIndex = j ∧ a.owns call.2 then 1 else 0 := by
  rw [count_pairsFrom hij hi hj]
  by_cases hcaller : call.1.classIndex = i
  · simp [hcaller, hij]
  · simp [hcaller]

end Call

/-! ## All calls -/

theorem countP_links_le_count {i j : Nat} {a b : ClassUnit} (hij : i ≠ j)
    (hi : model.classes[i]? = some a) (hj : model.classes[j]? = some b)
    (calls : List (MethodId × CallSignature)) :
    calls.countP (model.links i j) ≤
      (calls.flatMap model.pairsFrom).count
        (ClassPair.of a.qualifiedName b.qualifiedName) := by
  induction calls with
  | nil => simp
  | cons call calls ih =>
      rw [List.countP_cons, List.flatMap_cons, List.count_append,
        count_pairsFrom_eq_ite hij hi hj, Nat.add_comm]
      refine Nat.add_le_add ?_ ih
      by_cases hlinks : model.links i j call
      · simp [hlinks, owns_of_links hi hj hlinks]
      · simp [hlinks]

theorem countP_links_eq_count {i j : Nat} {a b : ClassUnit} (hij : i ≠ j)
    (hi : model.classes[i]? = some a) (hj : model.classes[j]? = some b)
    (hmodel : model.Unambiguous) {calls : List (MethodId × CallSignature)}
    (hcalls : ∀ call ∈ calls,
      call ∈ Resolution.recordedCalls model.methods) :
    calls.countP (model.links i j) =
      (calls.flatMap model.pairsFrom).count
        (ClassPair.of a.qualifiedName b.qualifiedName) := by
  induction calls with
  | nil => simp
  | cons call calls ih =>
      have hlinks : model.links i j call ↔
          (call.1.classIndex = i ∧ b.owns call.2 ∨
            call.1.classIndex = j ∧ a.owns call.2) :=
        ⟨owns_of_links hi hj, links_of_unambiguous hmodel
          (hcalls call List.mem_cons_self) hi hj⟩
      rw [List.countP_cons, List.flatMap_cons, List.count_append,
        count_pairsFrom_eq_ite hij hi hj, Nat.add_comm,
        ih fun other hother => hcalls other (List.mem_cons_of_mem _ hother)]
      simp only [hlinks]

theorem isReflexive_of_mem_pairsOf {pair : ClassPair}
    (h : pair ∈ Coupling.pairsOf model model.resolve.found) :
    pair.isReflexive = false :=
  isReflexive_of_mem_pairs (mem_pairs_of_mem_pairsOf h)

end ClassModel

namespace Coupling

variable {model : ClassModel} {coupling : Coupling}

theorem tallies_pairsOf_resolve
    (h : ofResolution? model model.resolve = some coupling) :
    coupling.raw.Tallies (pairsOf model model.resolve.found) :=
  tallies_of_ofResolution? (fun _ => ClassModel.isReflexive_of_mem_pairsOf) h

theorem exists_ofResolution?_of_le (hfits : model.crossCalls ≤ maxCount) :
    ∃ coupling, ofResolution? model model.resolve = some coupling := by
  rw [← model.length_pairsOf_resolve] at hfits
  obtain ⟨coupling, hcoupling, -⟩ := exists_ofResolution?
    (fun _ => ClassModel.isReflexive_of_mem_pairsOf) hfits
  exact ⟨coupling, hcoupling⟩

theorem rawBetween_eq_count
    (h : ofResolution? model model.resolve = some coupling) {i j : Nat}
    {a b : ClassUnit} (hij : i ≠ j) (hi : model.classes[i]? = some a)
    (hj : model.classes[j]? = some b) :
    coupling.rawBetween a.qualifiedName b.qualifiedName =
      ((Resolution.recordedCalls model.methods).flatMap
        model.pairsFrom).count
          (ClassPair.of a.qualifiedName b.qualifiedName) := by
  have hname : a.qualifiedName ≠ b.qualifiedName := by
    intro hname
    refine hij ((ClassModel.name?_eq_some_iff hj).mp ?_)
    rw [ClassModel.name?_of_getElem? hi, hname]
  rw [rawBetween_of_tallies (tallies_pairsOf_resolve h) hname,
    ClassModel.pairsOf_resolve]

/-- Unless the calls are too many to be counted a model has a coupling.  Between
two of its classes there are at most as many edges as counted calls, and exactly
as many if no call is ambiguous. -/
theorem edges_never_outnumber_calls (model : ClassModel) :
    (model.crossCalls ≤ maxCount →
      ∃ coupling, ofResolution? model model.resolve = some coupling) ∧
    ∀ coupling, ofResolution? model model.resolve = some coupling →
      ∀ i j a b, i ≠ j → model.classes[i]? = some a →
        model.classes[j]? = some b →
        model.resolve.graph.edgesBetween i j ≤
            coupling.rawBetween a.qualifiedName b.qualifiedName ∧
          (model.Unambiguous →
            model.resolve.graph.edgesBetween i j =
              coupling.rawBetween a.qualifiedName b.qualifiedName) := by
  refine ⟨exists_ofResolution?_of_le, ?_⟩
  intro coupling hcoupling i j a b hij hi hj
  rw [rawBetween_eq_count hcoupling hij hi hj,
    ClassModel.edgesBetween_resolve]
  refine ⟨ClassModel.countP_links_le_count hij hi hj _, ?_⟩
  intro hmodel
  exact ClassModel.countP_links_eq_count hij hi hj hmodel fun _ h => h

/-- `A` calls `save:1`, which `A`, `B` and `C` own, and `B` calls `f:0` back: there
is one edge for two counted calls.  Without `B` and `C` owning `save:1` the two
numbers are equal. -/
theorem edges_never_outnumber_calls_save :
    let saves : MethodUnit := ⟨"save", 1, 0, ∅⟩
    let calls : MethodUnit :=
      ⟨"f", 0, 0, (∅ : CallSet).insert ⟨"save", 1⟩⟩
    let callsBack : MethodUnit := ⟨"g", 0, 0, (∅ : CallSet).insert ⟨"f", 0⟩⟩
    let ambiguous := ClassModel.ofClasses
      [⟨"A", "", 0, [calls, saves]⟩, ⟨"B", "", 0, [saves, saves, callsBack]⟩,
        ⟨"C", "", 0, [saves]⟩]
    let plain := ClassModel.ofClasses
      [⟨"A", "", 0, [calls, saves]⟩, ⟨"B", "", 0, [callsBack]⟩]
    (∃ coupling, ofResolution? ambiguous ambiguous.resolve = some coupling ∧
      ambiguous.resolve.graph.edgesBetween 0 1 = 1 ∧
      1 ≤ coupling.rawBetween "A" "B") ∧
    plain.Unambiguous ∧
    ∃ coupling, ofResolution? plain plain.resolve = some coupling ∧
      plain.resolve.graph.edgesBetween 0 1 = 1 ∧
      coupling.rawBetween "A" "B" = 1 := by
  intro saves calls callsBack ambiguous plain
  have hedge : ambiguous.resolve.graph.edgesBetween 0 1 = 1 := by
    rw [ClassModel.edgesBetween_resolve]
    decide
  have hplainEdge : plain.resolve.graph.edgesBetween 0 1 = 1 := by
    rw [ClassModel.edgesBetween_resolve]
    decide
  have hplain : plain.Unambiguous := by
    unfold ClassModel.Unambiguous
    decide
  obtain ⟨coupling, hcoupling⟩ :=
    (edges_never_outnumber_calls ambiguous).1 (by decide)
  obtain ⟨other, hother⟩ := (edges_never_outnumber_calls plain).1 (by decide)
  have hle := ((edges_never_outnumber_calls ambiguous).2 coupling hcoupling
    0 1 _ _ (by decide) rfl rfl).1
  have heq := ((edges_never_outnumber_calls plain).2 other hother
    0 1 _ _ (by decide) rfl rfl).2 hplain
  rw [hedge] at hle
  rw [hplainEdge] at heq
  exact ⟨⟨coupling, hcoupling, hedge, hle⟩, hplain, other, hother, hplainEdge,
    heq.symm⟩

end Coupling

end ModuleRecovery
