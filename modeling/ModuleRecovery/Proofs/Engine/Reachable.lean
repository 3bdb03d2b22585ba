import ModuleRecovery.Proofs.Session.Freshness

/-!
# Reachable engines

An engine is made from a model or loaded from a file; after that it is asked and
loaded again.  Whatever happened to it, the parts of its analysis belong to one
model: the calls are those of the model, the coupling is that of the calls, and a
clustering that is kept is the one that would be made now.
-/

namespace ModuleRecovery

namespace Analysis

/-- All parts of the analysis are those of its model. -/
structure Consistent (analysis : Analysis) : Prop where
  resolution : analysis.resolution = analysis.model.resolve
  coupling : Coupling.ofResolution? analysis.model analysis.model.resolve =
    some analysis.coupling
  kept : ∀ clustering, analysis.kept? = some clustering →
    clustering = .run analysis.coupling analysis.model.names.toArray

theorem consistent_of_ofModel? {model : ClassModel} {analysis : Analysis}
    (h : ofModel? model = some analysis) :
    analysis.model = model ∧ analysis.Consistent := by
  obtain ⟨coupling, hcoupling, rfl⟩ := Option.map_eq_some_iff.mp h
  refine ⟨rfl, rfl, hcoupling, ?_⟩
  intro clustering hkept
  cases hkept

theorem Consistent.clustering_eq {analysis : Analysis}
    (h : analysis.Consistent) :
    analysis.clustering.2 =
      .run analysis.coupling analysis.model.names.toArray := by
  unfold clustering
  cases hkept : analysis.kept? with
  | none => rfl
  | some kept => exact h.kept kept hkept

theorem Consistent.clustering {analysis : Analysis}
    (h : analysis.Consistent) : analysis.clustering.1.Consistent := by
  unfold Analysis.clustering
  cases hkept : analysis.kept? with
  | some kept => exact h
  | none =>
      refine ⟨h.resolution, h.coupling, ?_⟩
      intro clustering hmade
      cases hmade
      rfl

end Analysis

namespace Engine

/-- The engines that can be met: made or loaded, then asked and loaded again any
number of times. -/
inductive Reachable : Engine → Prop where
  | made {path? : Option String} {excludeTests : Bool} {model : ClassModel}
      {engine : Engine} (h : ofModel path? excludeTests model = .ok engine) :
      Reachable engine
  | loaded {path : String} {excludeTests : Bool} {content : FileContent}
      {engine : Engine} (h : load path excludeTests content = .ok engine) :
      Reachable engine
  | asked {engine : Engine} (query : Query) (h : Reachable engine) :
      Reachable (engine.ask query).1
  | reloaded {engine next : Engine} {content : FileContent}
      (h : Reachable engine) (hreload : engine.reload content = .ok next) :
      Reachable next

/-- The classes that are analysed: all, or all but the test classes. -/
def analysed (excludeTests : Bool) (model : ClassModel) : ClassModel :=
  if excludeTests then model.withoutTests.1 else model

/-- The test classes that are left out. -/
def excluded (excludeTests : Bool) (model : ClassModel) : Nat :=
  if excludeTests then model.withoutTests.2 else 0

theorem analyse_eq (excludeTests : Bool) (model : ClassModel) :
    analyse excludeTests model =
      match Analysis.ofModel? (analysed excludeTests model) with
      | some analysis => .ok (excluded excludeTests model, analysis)
      | none => .error .countOverflow := by
  cases excludeTests <;> rfl

theorem ofModel_of_ofResolution? (path? : Option String) {excludeTests : Bool}
    {model : ClassModel} {coupling : Coupling}
    (h : Coupling.ofResolution? (analysed excludeTests model)
      (analysed excludeTests model).resolve = some coupling) :
    ofModel path? excludeTests model =
      .ok ⟨path?, excludeTests, excluded excludeTests model,
        ⟨analysed excludeTests model, (analysed excludeTests model).resolve,
          coupling, none⟩⟩ := by
  unfold ofModel
  rw [analyse_eq]
  simp [Analysis.ofModel?, h]

theorem consistent_of_analyse {excludeTests : Bool} {model : ClassModel}
    {excludedTests : Nat} {analysis : Analysis}
    (h : analyse excludeTests model = .ok (excludedTests, analysis)) :
    analysis.Consistent := by
  rw [analyse_eq] at h
  split at h
  · rename_i made hmade
    cases h
    exact (Analysis.consistent_of_ofModel? hmade).2
  · cases h

theorem consistent_of_ofModel {path? : Option String} {excludeTests : Bool}
    {model : ClassModel} {engine : Engine}
    (h : ofModel path? excludeTests model = .ok engine) :
    engine.analysis.Consistent := by
  unfold ofModel at h
  split at h
  · rename_i hanalyse
    cases h
    exact consistent_of_analyse hanalyse
  · cases h

theorem consistent_of_load {path : String} {excludeTests : Bool}
    {content : FileContent} {engine : Engine}
    (h : load path excludeTests content = .ok engine) :
    engine.analysis.Consistent := by
  unfold load at h
  split at h
  · exact consistent_of_ofModel h
  · cases h

theorem consistent_of_reload {engine next : Engine} {content : FileContent}
    (h : engine.reload content = .ok next) : next.analysis.Consistent := by
  cases hpath : engine.path? with
  | none => simp [reload, hpath] at h
  | some path =>
      rw [reload_eq_load hpath] at h
      cases hload : load path engine.excludeTests content with
      | error error =>
          rw [hload] at h
          cases h
      | ok fresh =>
          rw [hload] at h
          cases h
          exact consistent_of_load hload

theorem Reachable.consistent {engine : Engine} (h : engine.Reachable) :
    engine.analysis.Consistent := by
  induction h with
  | made h => exact consistent_of_ofModel h
  | loaded h => exact consistent_of_load h
  | reloaded _ hreload _ => exact consistent_of_reload hreload
  | @asked engine query _ ih =>
      rcases continues_ask engine query with hsame | hmade
      · rw [hsame]
        exact ih
      · rw [hmade]
        exact ih.clustering

end Engine

end ModuleRecovery
