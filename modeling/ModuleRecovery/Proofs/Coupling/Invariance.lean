import ModuleRecovery.Engine
import ModuleRecovery.Proofs.Coupling.Counting
import Mathlib

/-!
# What coupling does not depend on

The order in which classes and methods are declared, and the spelling of the
signatures, show in the matches and in the call graph.  They do not show in the
coupling.  A call is counted for a pair of classes when one of them owns its
signature, and a consistent renaming that keeps signatures apart keeps who owns
what.  The tally of the listed pairs does not depend on their order, not even in
whether a count becomes too large.
-/

namespace ModuleRecovery

/-! ## Declarations in another shape -/

/-- The method with its own signature and all its calls renamed. -/
def MethodUnit.rename (relabel : CallSignature → CallSignature)
    (method : MethodUnit) : MethodUnit where
  name := (relabel method.signature).name
  paramCount := (relabel method.signature).arity
  lineCount := method.lineCount
  calls := .ofList (method.calls.toList.map relabel)

/-- The same class, with its methods renamed and declared in some order. -/
def ClassUnit.Reshapes (relabel : CallSignature → CallSignature)
    (unit variant : ClassUnit) : Prop :=
  ∃ methods : List MethodUnit,
    methods.Perm (unit.methods.map (·.rename relabel)) ∧
      variant = { unit with methods := methods }

/-- The same classes in the same order, each with its methods renamed and
declared in some order. -/
def ClassModel.ReshapesInPlace (relabel : CallSignature → CallSignature)
    (model variant : ClassModel) : Prop :=
  List.Forall₂ (ClassUnit.Reshapes relabel) model.classes variant.classes

/-- The same classes in some order, each with its methods renamed and declared in
some order. -/
def ClassModel.Reshapes (relabel : CallSignature → CallSignature)
    (model variant : ClassModel) : Prop :=
  ∃ classes : List ClassUnit,
    List.Forall₂ (ClassUnit.Reshapes relabel) model.classes classes ∧
      classes.Perm variant.classes

/-! ## Calls into a class -/

section Renaming

variable {relabel : CallSignature → CallSignature}

theorem MethodUnit.signature_rename (relabel : CallSignature → CallSignature)
    (method : MethodUnit) :
    (method.rename relabel).signature = relabel method.signature :=
  rfl

theorem nodup_toList_calls (calls : CallSet) : calls.toList.Nodup := by
  refine Std.ExtTreeSet.distinct_toList.imp ?_
  rintro a b hne rfl
  exact hne Std.ReflCmp.compare_self

theorem MethodUnit.toList_calls_rename
    (hrelabel : Function.Injective relabel) (method : MethodUnit) :
    (method.rename relabel).calls.toList.Perm
      (method.calls.toList.map relabel) := by
  refine (List.perm_ext_iff_of_nodup (nodup_toList_calls _)
    ((nodup_toList_calls _).map hrelabel)).mpr ?_
  intro signature
  rw [Std.ExtTreeSet.mem_toList, MethodUnit.rename,
    Std.ExtTreeSet.mem_ofList, List.contains_iff_mem]

namespace ClassUnit.Reshapes

variable {a b a' b' : ClassUnit}

theorem qualifiedName_eq (h : a.Reshapes relabel a') :
    a'.qualifiedName = a.qualifiedName := by
  obtain ⟨methods, -, rfl⟩ := h
  rfl

theorem owns_eq (hrelabel : Function.Injective relabel)
    (h : b.Reshapes relabel b') (signature : CallSignature) :
    b'.owns (relabel signature) = b.owns signature := by
  obtain ⟨methods, hperm, rfl⟩ := h
  unfold ClassUnit.owns
  rw [hperm.any_eq, List.any_map]
  congr 1
  funext method
  simp [MethodUnit.signature_rename, hrelabel.eq_iff]

/-- Renaming and reordering keep the number of calls from one class into
another. -/
theorem callsInto_eq (hrelabel : Function.Injective relabel)
    (ha : a.Reshapes relabel a') (hb : b.Reshapes relabel b') :
    a'.callsInto b' = a.callsInto b := by
  have hmethod : ∀ method : MethodUnit,
      (method.rename relabel).calls.toList.countP b'.owns =
        method.calls.toList.countP b.owns := by
    intro method
    rw [(method.toList_calls_rename hrelabel).countP_eq, List.countP_map]
    refine List.countP_congr ?_
    intro signature _
    rw [Function.comp_apply, hb.owns_eq hrelabel]
  obtain ⟨methods, hperm, rfl⟩ := ha
  unfold ClassUnit.callsInto
  rw [(hperm.map _).sum_eq, List.map_map]
  congr 1
  exact List.map_congr_left fun method _ => hmethod method

end ClassUnit.Reshapes

/-! ## Pairs that are listed -/

namespace ClassModel

variable {model variant : ClassModel}

theorem ReshapesInPlace.reshapes (h : model.ReshapesInPlace relabel variant) :
    model.Reshapes relabel variant :=
  ⟨variant.classes, h, List.Perm.refl _⟩

theorem map_qualifiedName_eq {units variants : List ClassUnit}
    (h : List.Forall₂ (ClassUnit.Reshapes relabel) units variants) :
    variants.map ClassUnit.qualifiedName =
      units.map ClassUnit.qualifiedName := by
  induction h with
  | nil => rfl
  | cons hunit _ ih => rw [List.map_cons, List.map_cons, ih, hunit.qualifiedName_eq]

theorem Reshapes.names_perm (h : model.Reshapes relabel variant) :
    variant.names.Perm model.names := by
  obtain ⟨classes, hclasses, hperm⟩ := h
  have hnames := hperm.symm.map ClassUnit.qualifiedName
  rwa [map_qualifiedName_eq hclasses] at hnames

theorem Reshapes.exists_variant (h : model.Reshapes relabel variant)
    {a : ClassUnit} (ha : a ∈ model.classes) :
    ∃ a' ∈ variant.classes, a.Reshapes relabel a' := by
  obtain ⟨classes, hclasses, hperm⟩ := h
  obtain ⟨i, hi, rfl⟩ := List.getElem_of_mem ha
  have hi' : i < classes.length := hclasses.length_eq ▸ hi
  exact ⟨classes.get ⟨i, hi'⟩, hperm.mem_iff.mp (List.get_mem _ _),
    hclasses.get hi hi'⟩

theorem mem_pairs_iff {pair : ClassPair} :
    pair ∈ model.pairs ↔
      ∃ a b : String, a ∈ model.names ∧ b ∈ model.names ∧ a ≠ b ∧
        pair = ClassPair.of a b := by
  constructor
  · intro h
    obtain ⟨⟨a, b⟩, hab, rfl⟩ := List.mem_map.mp h
    obtain ⟨i, j, -, hi, hj⟩ := exists_getElem?_of_mem_orderedPairs hab
    exact ⟨_, _, List.mem_map_of_mem (List.mem_of_getElem? hi),
      List.mem_map_of_mem (List.mem_of_getElem? hj),
      qualifiedName_ne_of_mem_orderedPairs hab, rfl⟩
  · rintro ⟨_, _, hfirst, hsecond, hab, rfl⟩
    obtain ⟨a, ha, rfl⟩ := List.mem_map.mp hfirst
    obtain ⟨b, hb, rfl⟩ := List.mem_map.mp hsecond
    obtain ⟨i, hi⟩ := List.mem_iff_getElem?.mp ha
    obtain ⟨j, hj⟩ := List.mem_iff_getElem?.mp hb
    refine of_mem_pairs ?_ hi hj
    rintro rfl
    cases hi.symm.trans hj
    exact hab rfl

theorem Reshapes.mem_pairs_iff (h : model.Reshapes relabel variant)
    {pair : ClassPair} : pair ∈ variant.pairs ↔ pair ∈ model.pairs := by
  simp only [ClassModel.mem_pairs_iff, h.names_perm.mem_iff]

theorem count_pairsOf_resolve_of_mem {a b : ClassUnit}
    (ha : a ∈ model.classes) (hb : b ∈ model.classes)
    (hab : a.qualifiedName ≠ b.qualifiedName) :
    (Coupling.pairsOf model model.resolve.found).count
        (ClassPair.of a.qualifiedName b.qualifiedName) =
      a.callsInto b + b.callsInto a := by
  obtain ⟨i, hi⟩ := List.mem_iff_getElem?.mp ha
  obtain ⟨j, hj⟩ := List.mem_iff_getElem?.mp hb
  have hij : i ≠ j := by
    rintro rfl
    cases hi.symm.trans hj
    exact hab rfl
  exact count_pairsOf_resolve hij hi hj

/-- Every pair is listed as often as before. -/
theorem Reshapes.pairsOf_perm (hrelabel : Function.Injective relabel)
    (h : model.Reshapes relabel variant) :
    (Coupling.pairsOf variant variant.resolve.found).Perm
      (Coupling.pairsOf model model.resolve.found) := by
  rw [List.perm_iff_count]
  intro pair
  by_cases hpair : pair ∈ model.pairs
  · obtain ⟨_, _, hfirst, hsecond, hab, rfl⟩ :=
      ClassModel.mem_pairs_iff.mp hpair
    obtain ⟨a, ha, rfl⟩ := List.mem_map.mp hfirst
    obtain ⟨b, hb, rfl⟩ := List.mem_map.mp hsecond
    obtain ⟨a', ha', haShape⟩ := h.exists_variant ha
    obtain ⟨b', hb', hbShape⟩ := h.exists_variant hb
    have hvariant := count_pairsOf_resolve_of_mem ha' hb' (by
      rw [haShape.qualifiedName_eq, hbShape.qualifiedName_eq]
      exact hab)
    rw [haShape.qualifiedName_eq, hbShape.qualifiedName_eq,
      haShape.callsInto_eq hrelabel hbShape,
      hbShape.callsInto_eq hrelabel haShape] at hvariant
    rw [hvariant, count_pairsOf_resolve_of_mem ha hb hab]
  · have hvariant : pair ∉ variant.pairs := by
      rwa [h.mem_pairs_iff]
    rw [List.count_eq_zero.mpr fun hmem =>
        hvariant (mem_pairs_of_mem_pairsOf hmem),
      List.count_eq_zero.mpr fun hmem =>
        hpair (mem_pairs_of_mem_pairsOf hmem)]

end ClassModel

end Renaming

/-! ## The tally of a reordered list -/

namespace Coupling

theorem insert_insert_comm {p q : ClassPair} (hpq : p ≠ q)
    (counts : PairCounts) (m n : ℕ) :
    (counts.insert p m).insert q n = (counts.insert q n).insert p m := by
  apply Std.ExtTreeMap.ext_getElem?
  intro pair
  simp only [Std.ExtTreeMap.getElem?_insert,
    Std.LawfulEqCmp.compare_eq_iff_eq]
  by_cases hp : p = pair
  · subst hp
    simp [hpq.symm]
  · simp [hp]

theorem getD_insert_of_ne {p q : ClassPair} (hpq : p ≠ q)
    (counts : PairCounts) (n : ℕ) :
    (counts.insert p n).getD q 0 = counts.getD q 0 := by
  rw [Std.ExtTreeMap.getD_insert, if_neg]
  rwa [Std.LawfulEqCmp.compare_eq_iff_eq]

/-- Different pairs may be counted in either order: a count that becomes too large
does so in both. -/
theorem increase?_comm {p q : ClassPair} (hpq : p ≠ q) (counts : PairCounts)
    (m n : ℕ) :
    ((increase? counts p m).bind fun next => increase? next q n) =
      (increase? counts q n).bind fun next => increase? next p m := by
  unfold increase? addCounts?
  by_cases hp : counts.getD p 0 + m ≤ maxCount
  · by_cases hq : counts.getD q 0 + n ≤ maxCount
    · simp [hp, hq, getD_insert_of_ne hpq, getD_insert_of_ne hpq.symm,
        insert_insert_comm hpq]
    · simp [hp, hq, getD_insert_of_ne hpq]
  · by_cases hq : counts.getD q 0 + n ≤ maxCount
    · simp [hp, hq, getD_insert_of_ne hpq.symm]
    · simp [hp, hq]

theorem tally?_eq_of_perm {pairs others : List ClassPair}
    (hperm : pairs.Perm others) : tally? pairs = tally? others := by
  have hfold : ∀ start : PairCounts,
      pairs.foldlM (fun counts pair => increase? counts pair 1) start =
        others.foldlM (fun counts pair => increase? counts pair 1) start := by
    induction hperm with
    | nil => intro start; rfl
    | cons pair _ ih =>
        intro start
        rw [List.foldlM_cons, List.foldlM_cons]
        exact congrArg _ (funext ih)
    | swap p q rest =>
        intro start
        by_cases hpq : p = q
        · rw [hpq]
        · simp only [List.foldlM_cons, Option.bind_eq_bind,
            ← Option.bind_assoc]
          rw [increase?_comm hpq]
    | trans _ _ ihLeft ihRight =>
        intro start
        exact (ihLeft start).trans (ihRight start)
  exact hfold ∅

theorem pairwise_mergeSort_names (names : List String) :
    (names.mergeSort fun a b => decide (a ≤ b)).Pairwise (· ≤ ·) := by
  have htrans : ∀ a b c : String, decide (a ≤ b) = true →
      decide (b ≤ c) = true → decide (a ≤ c) = true := by
    intro a b c hab hbc
    rw [decide_eq_true_iff] at hab hbc ⊢
    exact String.le_trans hab hbc
  have htotal : ∀ a b : String, (decide (a ≤ b) || decide (b ≤ a)) = true := by
    intro a b
    simpa using String.le_total a b
  simpa using List.pairwise_mergeSort htrans htotal names

/-- The sorted names do not depend on the order of the names. -/
theorem sortedNames_eq_of_perm {names others : List String}
    (hperm : names.Perm others) : sortedNames names = sortedNames others := by
  unfold sortedNames
  congr 1
  refine List.Perm.eq_of_pairwise (fun _ _ _ _ => String.le_antisymm)
    (pairwise_mergeSort_names names) (pairwise_mergeSort_names others) ?_
  exact (List.mergeSort_perm _ _).trans
    (hperm.trans (List.mergeSort_perm _ _).symm)

/-! ## The analysis of a reshaped model -/

/-- Declaring classes and methods in another order and renaming all signatures
consistently changes nothing in the coupling; with the classes in their order it
changes nothing in the clustering and the modules either. -/
theorem ofResolution?_of_reshapes {relabel : CallSignature → CallSignature}
    (hrelabel : Function.Injective relabel) {model variant : ClassModel}
    (hshape : model.Reshapes relabel variant) :
    ofResolution? variant variant.resolve = ofResolution? model model.resolve ∧
    ∀ coupling other, ofResolution? model model.resolve = some coupling →
      ofResolution? variant variant.resolve = some other →
      other.total = coupling.total ∧ other.raw = coupling.raw ∧
      (other.normalized : PairScores Float) = coupling.normalized ∧
      (other.ranked : List (RankedPair Float)) = coupling.ranked ∧
      (∀ names,
        (other.table names : List (List Float)) = coupling.table names) ∧
      sortedNames variant.names = sortedNames model.names ∧
      (other.table (sortedNames variant.names) : List (List Float)) =
        coupling.table (sortedNames model.names) ∧
      (model.ReshapesInPlace relabel variant →
        (Clustering.run other variant.names.toArray : Clustering Float) =
          Clustering.run coupling model.names.toArray ∧
        ∀ threshold,
          Engine.modulesReport (.run other variant.names.toArray) threshold =
            Engine.modulesReport (.run coupling model.names.toArray)
              threshold) := by
  have hsame : ofResolution? variant variant.resolve =
      ofResolution? model model.resolve := by
    unfold ofResolution?
    rw [tally?_eq_of_perm (hshape.pairsOf_perm hrelabel)]
  refine ⟨hsame, ?_⟩
  intro coupling other hcoupling hother
  obtain rfl : other = coupling := by
    rw [hsame, hcoupling] at hother
    exact (Option.some.inj hother).symm
  have hsorted := sortedNames_eq_of_perm hshape.names_perm
  refine ⟨rfl, rfl, rfl, rfl, fun _ => rfl, hsorted, by rw [hsorted], ?_⟩
  intro hplace
  have hnames : variant.names = model.names :=
    ClassModel.map_qualifiedName_eq hplace
  rw [hnames]
  exact ⟨rfl, fun _ => rfl⟩

/-- `A` and `B` call each other; the variant declares `B` first, turns the methods
of `A` around and adds one to every arity. -/
theorem ofResolution?_of_reshapes_two_classes :
    let relabel (signature : CallSignature) : CallSignature :=
      ⟨signature.name, signature.arity + 1⟩
    let saves : MethodUnit := ⟨"save", 1, 0, (∅ : CallSet).insert ⟨"f", 0⟩⟩
    let calls : MethodUnit := ⟨"f", 0, 0, (∅ : CallSet).insert ⟨"save", 1⟩⟩
    let idle : MethodUnit := ⟨"g", 0, 0, ∅⟩
    let a : ClassUnit := ⟨"A", "", 0, [calls, idle]⟩
    let b : ClassUnit := ⟨"B", "", 0, [saves]⟩
    let a' : ClassUnit :=
      ⟨"A", "", 0, [idle.rename relabel, calls.rename relabel]⟩
    let b' : ClassUnit := ⟨"B", "", 0, [saves.rename relabel]⟩
    let model := ClassModel.ofClasses [a, b]
    let swapped := ClassModel.ofClasses [b', a']
    let inPlace := ClassModel.ofClasses [a', b']
    swapped.names = ["B", "A"] ∧
      (ofResolution? swapped swapped.resolve).map total = some 2 ∧
      ∃ coupling, ofResolution? inPlace inPlace.resolve = some coupling ∧
        coupling.total = 2 ∧
        (Clustering.run coupling inPlace.names.toArray : Clustering Float) =
          Clustering.run coupling model.names.toArray := by
  intro relabel saves calls idle a b a' b' model swapped inPlace
  have hrelabel : Function.Injective relabel := by
    rintro ⟨name, arity⟩ ⟨other, number⟩ h
    simpa [relabel] using h
  have ha : a.Reshapes relabel a' := ⟨_, List.Perm.swap _ _ _, rfl⟩
  have hb : b.Reshapes relabel b' := ⟨_, List.Perm.refl _, rfl⟩
  have hshapes : List.Forall₂ (ClassUnit.Reshapes relabel) model.classes
      [a', b'] := .cons ha (.cons hb .nil)
  have hswapped : model.Reshapes relabel swapped :=
    ⟨[a', b'], hshapes, List.Perm.swap _ _ _⟩
  have hplace : model.ReshapesInPlace relabel inPlace := hshapes
  have htotal : (ofResolution? model model.resolve).map total = some 2 := by
    cbv
  obtain ⟨coupling, hcoupling, htwo⟩ := Option.map_eq_some_iff.mp htotal
  obtain ⟨hsame, hviews⟩ := ofResolution?_of_reshapes hrelabel hplace.reshapes
  have hother : ofResolution? inPlace inPlace.resolve = some coupling :=
    hsame.trans hcoupling
  refine ⟨rfl, ?_, coupling, hother, htwo, ?_⟩
  · rw [(ofResolution?_of_reshapes hrelabel hswapped).1]
    exact htotal
  · obtain ⟨-, -, -, -, -, -, -, hkept⟩ := hviews _ _ hcoupling hother
    exact (hkept hplace).1

end Coupling

end ModuleRecovery
