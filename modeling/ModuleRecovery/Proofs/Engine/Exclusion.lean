import ModuleRecovery.Proofs.ClassModel.Collection
import ModuleRecovery.Proofs.Coupling.Edges
import ModuleRecovery.Proofs.Engine.Reachable

/-!
# Leaving out test classes

Classes are collected before the test classes are left out, and collecting knows a
class by its qualified name alone.  A name does not tell where the package ends:
`Fixture` in `shop.test` and `test.Fixture` in `shop` are one class to a model,
though only the first of them is test code.  So it is the first class of a name
that decides whether the name is analysed.

Analysing the rest is therefore the same as removing beforehand all classes whose
name is first borne by test code.  It is the same as removing the test classes
themselves as long as no production class comes after a test class of its name,
and that cannot happen where class names contain no dot.
-/

namespace ModuleRecovery

namespace ClassModel

/-- The first class of the name is no test class. -/
def firstIsProduction (units : List ClassUnit) (name : String) : Bool :=
  (firstNamed? units name).any (!·.isTest)

/-- The classes whose name is first borne by production code. -/
def keptClasses (units : List ClassUnit) : List ClassUnit :=
  units.filter fun unit => firstIsProduction units unit.qualifiedName

def productionClasses (units : List ClassUnit) : List ClassUnit :=
  units.filter fun unit => !unit.isTest

theorem withoutTests_ofClasses (units : List ClassUnit) :
    (ofClasses units).withoutTests.1 = ofClasses (keptClasses units) := by
  apply eq_of_classes_eq
  unfold keptClasses
  rw [classes_ofClasses_filter]
  apply List.filter_congr
  intro unit hunit
  rw [mem_classes_ofClasses_iff] at hunit
  simp [firstIsProduction, hunit]

theorem withoutTests_sublist (units : List ClassUnit) :
    (ofClasses units).withoutTests.1.classes.Sublist
      (ofClasses (productionClasses units)).classes := by
  change ((ofClasses units).classes.filter (!·.isTest)).Sublist _
  unfold productionClasses
  induction units using List.reverseRecOn with
  | nil => exact .slnil
  | append_singleton units last ih =>
      rw [classes_ofClasses_append_singleton, List.filter_append,
        List.filter_append]
      cases htest : last.isTest with
      | true =>
          split <;> simpa [htest] using ih
      | false =>
          have hlast : ([last].filter (!·.isTest)) = [last] := by
            simp [htest]
          rw [hlast, classes_ofClasses_append_singleton]
          by_cases hname :
              last.qualifiedName ∈ units.map ClassUnit.qualifiedName
          · rw [if_pos hname, List.filter_nil, List.append_nil]
            exact ih.trans (List.sublist_append_left _ _)
          · have hkept : last.qualifiedName ∉
                (units.filter (!·.isTest)).map ClassUnit.qualifiedName :=
              mt (fun h => (List.filter_sublist.map _).subset h) hname
            rw [if_neg hname, if_neg hkept, hlast]
            exact ih.append (.refl _)

theorem mem_names_keptClasses_iff (units : List ClassUnit) (name : String) :
    name ∈ (ofClasses (keptClasses units)).names ↔
      firstIsProduction units name = true := by
  rw [mem_names_ofClasses_iff]
  constructor
  · intro hname
    obtain ⟨unit, hunit, rfl⟩ := List.mem_map.mp hname
    exact (List.mem_filter.mp hunit).2
  · intro hfirst
    cases hnamed : firstNamed? units name with
    | none => simp [firstIsProduction, hnamed] at hfirst
    | some first =>
        obtain ⟨hmem, rfl⟩ := mem_of_firstNamed? hnamed
        exact List.mem_map_of_mem (List.mem_filter.mpr ⟨hmem, hfirst⟩)

/-- Nothing but the test classes is missing exactly when production code is never
preceded by a test class of its name, without other production code before. -/
theorem ofClasses_keptClasses_eq_iff (units : List ClassUnit) :
    ofClasses (keptClasses units) = ofClasses (productionClasses units) ↔
      ∀ unit ∈ units, unit.isTest = false →
        firstIsProduction units unit.qualifiedName = true := by
  constructor
  · intro heq unit hunit htest
    rw [← mem_names_keptClasses_iff, heq, mem_names_ofClasses_iff]
    exact List.mem_map_of_mem
      (List.mem_filter.mpr ⟨hunit, by simp [htest]⟩)
  · intro hfirst
    have hsublist := withoutTests_sublist units
    rw [withoutTests_ofClasses] at hsublist
    have hnames : (ofClasses (productionClasses units)).names ⊆
        (ofClasses (keptClasses units)).names := by
      intro name hname
      rw [mem_names_ofClasses_iff] at hname
      obtain ⟨unit, hunit, rfl⟩ := List.mem_map.mp hname
      obtain ⟨hmem, htest⟩ := List.mem_filter.mp hunit
      rw [mem_names_keptClasses_iff]
      exact hfirst unit hmem (by simpa using htest)
    have hlength := ((ofClasses (productionClasses units)).distinct.subperm
      hnames).length_le
    unfold names at hlength
    rw [List.length_map, List.length_map] at hlength
    exact eq_of_classes_eq (hsublist.eq_of_length_le hlength)

end ClassModel

theorem ClassModel.firstIsProduction_of_dotless {units : List ClassUnit}
    (h : ∀ unit ∈ units, '.' ∉ unit.name.toList) {unit : ClassUnit}
    (hunit : unit ∈ units) (htest : unit.isTest = false) :
    firstIsProduction units unit.qualifiedName = true := by
  cases hfirst : firstNamed? units unit.qualifiedName with
  | none =>
      exact absurd (List.mem_map_of_mem hunit)
        (firstNamed?_eq_none_iff.mp hfirst)
  | some first =>
      obtain ⟨hmem, hsame⟩ := mem_of_firstNamed? hfirst
      obtain ⟨hname, hpackage⟩ := ClassUnit.eq_of_qualifiedName_eq
        (h first hmem) (h unit hunit) hsame
      have hverdict : first.isTest = unit.isTest := by
        unfold ClassUnit.isTest
        rw [hname, hpackage]
      simp [firstIsProduction, hfirst, hverdict, htest]

namespace Engine

theorem map_analysis_ofModel_eq (path? : Option String)
    {excludeTests excludeOthers : Bool} {model other : ClassModel}
    (h : analysed excludeTests model = analysed excludeOthers other) :
    (ofModel path? excludeTests model).map analysis =
      (ofModel path? excludeOthers other).map analysis := by
  unfold ofModel
  rw [analyse_eq, analyse_eq, h]
  cases Analysis.ofModel? (analysed excludeOthers other) <;> rfl

theorem model_of_ofModel {path? : Option String} {excludeTests : Bool}
    {model : ClassModel} {engine : Engine}
    (h : ofModel path? excludeTests model = .ok engine) :
    engine.analysis.model = analysed excludeTests model := by
  unfold ofModel at h
  rw [analyse_eq] at h
  cases hmade : Analysis.ofModel? (analysed excludeTests model) with
  | none => simp [hmade] at h
  | some analysis =>
      simp only [hmade] at h
      cases h
      exact (Analysis.consistent_of_ofModel? hmade).1

/-- Leaving out the test classes gives the analysis of the classes whose name is
first borne by production code, and there is one unless their calls are too many
to be counted.  They are some of those that are left when the test classes are
removed beforehand, and all of them unless a test class comes before production
code of its name. -/
theorem excluding_tests_by_first_names (path? : Option String)
    (units : List ClassUnit) :
    let kept := ClassModel.ofClasses (ClassModel.keptClasses units)
    let production :=
      ClassModel.ofClasses (ClassModel.productionClasses units)
    (ofModel path? true (.ofClasses units)).map analysis =
        (ofModel path? false kept).map analysis ∧
      (∀ engine, ofModel path? true (.ofClasses units) = .ok engine →
        engine.analysis.model = kept) ∧
      (kept.crossCalls ≤ maxCount →
        ∃ engine, ofModel path? true (.ofClasses units) = .ok engine) ∧
      kept.classes.Sublist production.classes ∧
      (kept = production ↔ ∀ unit ∈ units, unit.isTest = false →
        ClassModel.firstIsProduction units unit.qualifiedName = true) ∧
      (∀ name, name ∈ kept.names ↔
        ClassModel.firstIsProduction units name = true) ∧
      ((∀ unit ∈ units, '.' ∉ unit.name.toList) → kept = production) := by
  have hkept := ClassModel.withoutTests_ofClasses units
  have hiff := ClassModel.ofClasses_keptClasses_eq_iff units
  refine ⟨map_analysis_ofModel_eq path? hkept, ?_, ?_, ?_, hiff,
    ClassModel.mem_names_keptClasses_iff units, ?_⟩
  · intro engine hmade
    exact (model_of_ofModel hmade).trans hkept
  · intro hfits
    obtain ⟨coupling, hcoupling⟩ := Coupling.exists_ofResolution?_of_le hfits
    rw [← hkept] at hcoupling
    exact ⟨_, ofModel_of_ofResolution? path? hcoupling⟩
  · rw [← hkept]
    exact ClassModel.withoutTests_sublist units
  · intro hdotless
    rw [hiff]
    intro unit hunit htest
    exact ClassModel.firstIsProduction_of_dotless hdotless hunit htest

/-- A test class can hide production code of the same qualified name. -/
theorem excluding_tests_hides_production :
    let fixture : ClassUnit := ⟨"Fixture", "shop.test", 0, []⟩
    let other : ClassUnit := ⟨"test.Fixture", "shop", 0, []⟩
    fixture.isTest = true ∧ other.isTest = false ∧
      (ofModel none true (.ofClasses [fixture, other])).map
        (·.analysis.model.classes) = .ok [] ∧
      (ClassModel.ofClasses
        (ClassModel.productionClasses [fixture, other])).classes =
          [other] := by
  refine ⟨?_, ?_, ?_, ?_⟩
  · cbv
  · cbv
  · cbv
  · cbv

end Engine

end ModuleRecovery
