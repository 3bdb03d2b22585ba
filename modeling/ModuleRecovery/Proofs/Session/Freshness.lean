import ModuleRecovery.Session
import Mathlib

/-!
# Sessions answer as fresh engines

An engine keeps the clustering that it made, and a session keeps its engine over
any number of questions, changes of the file and attempts to load it again.  None
of that can be seen in the answers: they are those of an engine freshly loaded
from the content that the file had when it was last loaded.

The argument is a simulation.  What an engine can become by being asked is
itself or itself after the clustering was made, and both answer alike.  So a
session is told by two contents, the one last loaded and the present one.
-/

namespace ModuleRecovery

/-! ## The kept clustering -/

namespace Analysis

@[simp] theorem clustering_clustering (analysis : Analysis) :
    analysis.clustering.1.clustering = analysis.clustering := by
  rcases analysis with ⟨model, resolution, coupling, none | kept⟩ <;> rfl

@[simp] theorem model_clustering (analysis : Analysis) :
    analysis.clustering.1.model = analysis.model := by
  rcases analysis with ⟨model, resolution, coupling, none | kept⟩ <;> rfl

@[simp] theorem resolution_clustering (analysis : Analysis) :
    analysis.clustering.1.resolution = analysis.resolution := by
  rcases analysis with ⟨model, resolution, coupling, none | kept⟩ <;> rfl

@[simp] theorem coupling_clustering (analysis : Analysis) :
    analysis.clustering.1.coupling = analysis.coupling := by
  rcases analysis with ⟨model, resolution, coupling, none | kept⟩ <;> rfl

end Analysis

namespace Engine

@[simp] theorem clustering_clustering (engine : Engine) :
    engine.clustering.1.clustering = engine.clustering := by
  simp [clustering]

@[simp] theorem answer_clustering (engine : Engine) (query : Query) :
    engine.clustering.1.answer query = engine.answer query := by
  cases query with
  | health => simp [answer, ask, health, clustering]
  | callGraph => simp [answer, ask, callGraph, clustering]
  | coupling limit? => simp [answer, ask, coupling, clustering]
  | pair a b => simp [answer, ask, pair, clustering]
  | matrix => simp [answer, ask, matrix, clustering]
  | dendrogram => simp [answer, ask, dendrogram]
  | modules value =>
      simp only [answer, ask, modules]
      cases threshold value <;> simp

/-- The engine is the other one, as it is or after its clustering was made. -/
def Continues (engine fresh : Engine) : Prop :=
  engine = fresh ∨ engine = fresh.clustering.1

theorem Continues.answer_eq {engine fresh : Engine}
    (h : engine.Continues fresh) (query : Query) :
    engine.answer query = fresh.answer query := by
  rcases h with rfl | rfl
  · rfl
  · exact answer_clustering fresh query

theorem continues_ask (engine : Engine) (query : Query) :
    (engine.ask query).1.Continues engine := by
  cases query with
  | dendrogram => exact .inr rfl
  | modules value =>
      unfold Continues
      simp only [ask, modules]
      cases threshold value with
      | error error => exact .inl rfl
      | ok threshold => exact .inr rfl
  | health => exact .inl rfl
  | callGraph => exact .inl rfl
  | coupling limit? => exact .inl rfl
  | pair a b => exact .inl rfl
  | matrix => exact .inl rfl

theorem Continues.ask {engine fresh : Engine} (h : engine.Continues fresh)
    (query : Query) : (engine.ask query).1.Continues fresh := by
  rcases h with rfl | rfl
  · exact continues_ask engine query
  · rcases continues_ask fresh.clustering.1 query with hsame | hmade
    · exact .inr hsame
    · rw [clustering_clustering] at hmade
      exact .inr hmade

theorem Continues.path?_eq {engine fresh : Engine}
    (h : engine.Continues fresh) : engine.path? = fresh.path? := by
  rcases h with rfl | rfl <;> rfl

theorem Continues.excludeTests_eq {engine fresh : Engine}
    (h : engine.Continues fresh) :
    engine.excludeTests = fresh.excludeTests := by
  rcases h with rfl | rfl <;> rfl

/-! ## Loading again -/

theorem origin_of_ofModel {path? : Option String} {excludeTests : Bool}
    {model : ClassModel} {engine : Engine}
    (h : ofModel path? excludeTests model = .ok engine) :
    engine.path? = path? ∧ engine.excludeTests = excludeTests := by
  unfold ofModel at h
  split at h
  · cases h
    exact ⟨rfl, rfl⟩
  · cases h

theorem origin_of_load {path : String} {excludeTests : Bool}
    {content : FileContent} {engine : Engine}
    (h : load path excludeTests content = .ok engine) :
    engine.path? = some path ∧ engine.excludeTests = excludeTests := by
  unfold load at h
  split at h
  · exact origin_of_ofModel h
  · cases h

/-- Loading again does what loading does, with the path and the choice about test
classes that the engine has. -/
theorem reload_eq_load {engine : Engine} {path : String}
    (hpath : engine.path? = some path) (content : FileContent) :
    engine.reload content =
      (load path engine.excludeTests content).mapError .load := by
  unfold reload load
  rw [hpath]
  cases hmodel : ClassModel.load path content with
  | error error => simp [hmodel, Except.mapError]
  | ok model =>
      cases hanalyse : analyse engine.excludeTests model with
      | error error => simp [hmodel, hanalyse, ofModel, Except.mapError]
      | ok result => simp [hmodel, hanalyse, ofModel, Except.mapError]

end Engine

/-! ## Records of loading -/

/-- What the file held when it was last loaded, the engine fresh from that, and
what the file holds now. -/
structure LoadRecord (path : String) (excludeTests : Bool) where
  loaded : FileContent
  fresh : Engine
  loads : Engine.load path excludeTests loaded = .ok fresh
  file : FileContent

namespace LoadRecord

variable {path : String} {excludeTests : Bool}

def start {content : FileContent} {engine : Engine}
    (h : Engine.load path excludeTests content = .ok engine) :
    LoadRecord path excludeTests :=
  ⟨content, engine, h, content⟩

def reload (record : LoadRecord path excludeTests) :
    LoadRecord path excludeTests :=
  match h : Engine.load path excludeTests record.file with
  | .ok _ => start h
  | .error _ => record

theorem reload_of_ok {record : LoadRecord path excludeTests}
    {fresh : Engine}
    (h : Engine.load path excludeTests record.file = .ok fresh) :
    record.reload = start h := by
  unfold reload
  split
  · rename_i other hother
    cases h.symm.trans hother
    rfl
  · rename_i error herror
    cases h.symm.trans herror

theorem reload_of_error {record : LoadRecord path excludeTests}
    {error : LoadError}
    (h : Engine.load path excludeTests record.file = .error error) :
    record.reload = record := by
  unfold reload
  split
  · rename_i fresh hfresh
    cases h.symm.trans hfresh
  · rfl

/-- A record changes when the file changes and when loading succeeds. -/
def step (record : LoadRecord path excludeTests) :
    Step → LoadRecord path excludeTests
  | .ask _ => record
  | .reload => record.reload
  | .write content => { record with file := content }

/-- Questions are answered by the fresh engine of the record.  Loading again is
answered as loading: by the health of an engine fresh from the present content,
or by the error. -/
def answer (record : LoadRecord path excludeTests) :
    Step → Option (Except EngineError Report)
  | .ask query => some (record.fresh.answer query)
  | .reload =>
    match Engine.load path excludeTests record.file with
    | .ok fresh => some (.ok (.health fresh.health))
    | .error error => some (.error (.load error))
  | .write _ => none

def run (record : LoadRecord path excludeTests) :
    List Step → List (Option (Except EngineError Report))
  | [] => []
  | step :: steps => record.answer step :: (record.step step).run steps

end LoadRecord

/-! ## The simulation -/

namespace Session

variable {path : String} {excludeTests : Bool}

/-- The session has the file of the record, and its engine continues the fresh
one. -/
structure Follows (session : Session)
    (record : LoadRecord path excludeTests) : Prop where
  file : session.file = record.file
  engine : session.engine.Continues record.fresh

theorem Follows.reload_eq {session : Session}
    {record : LoadRecord path excludeTests}
    (hfollows : session.Follows record) :
    session.reload =
      match Engine.load path excludeTests record.file with
      | .ok fresh => (⟨fresh, record.file⟩, .ok (.health fresh.health))
      | .error error => (session, .error (.load error)) := by
  obtain ⟨hpath, hexclude⟩ := Engine.origin_of_load record.loads
  rw [← hfollows.engine.path?_eq] at hpath
  rw [← hfollows.engine.excludeTests_eq] at hexclude
  unfold reload
  rw [Engine.reload_eq_load hpath, hexclude, hfollows.file]
  cases hload : Engine.load path excludeTests record.file with
  | error error => rfl
  | ok fresh => rfl

theorem Follows.step {session : Session}
    {record : LoadRecord path excludeTests}
    (hfollows : session.Follows record) (step : Step) :
    (session.step step).1.Follows (record.step step) ∧
      (session.step step).2 = record.answer step := by
  cases step with
  | ask query =>
      refine ⟨⟨hfollows.file, hfollows.engine.ask query⟩, ?_⟩
      exact congrArg some (hfollows.engine.answer_eq query)
  | write content => exact ⟨⟨rfl, hfollows.engine⟩, rfl⟩
  | reload =>
      simp only [Session.step, LoadRecord.step, LoadRecord.answer,
        hfollows.reload_eq]
      cases hload : Engine.load path excludeTests record.file with
      | ok fresh =>
          rw [LoadRecord.reload_of_ok hload]
          exact ⟨⟨rfl, .inl rfl⟩, rfl⟩
      | error error =>
          rw [LoadRecord.reload_of_error hload]
          exact ⟨hfollows, rfl⟩

theorem Follows.run_eq {session : Session}
    {record : LoadRecord path excludeTests}
    (hfollows : session.Follows record) (steps : List Step) :
    session.run steps = record.run steps := by
  induction steps generalizing session record with
  | nil => rfl
  | cons step steps ih =>
      obtain ⟨hnext, hanswer⟩ := hfollows.step step
      change (session.step step).2 :: (session.step step).1.run steps = _
      rw [hanswer, ih hnext]
      rfl

def after (session : Session) (steps : List Step) : Session :=
  steps.foldl (fun session step => (session.step step).1) session

theorem Follows.after {session : Session}
    {record : LoadRecord path excludeTests}
    (hfollows : session.Follows record) (steps : List Step) :
    (session.after steps).Follows (steps.foldl LoadRecord.step record) := by
  induction steps generalizing session record with
  | nil => exact hfollows
  | cons step steps ih => exact ih (hfollows.step step).1

theorem drop_run_append (session : Session) (before later : List Step) :
    (session.run (before ++ later)).drop before.length =
      (session.after before).run later := by
  induction before generalizing session with
  | nil => rfl
  | cons step before ih => exact ih (session.step step).1

theorem drop_run_append_cons (session : Session) (before : List Step)
    (step : Step) (later : List Step) :
    (session.run (before ++ step :: later)).drop (before.length + 1) =
      ((session.after before).step step).1.run later := by
  have hdrop := session.drop_run_append (before ++ [step]) later
  simpa [after] using hdrop

/-- A step that the record does not notice cannot be noticed in the answers that
follow it. -/
theorem Follows.drop_run_eq {session : Session}
    {record : LoadRecord path excludeTests}
    (hfollows : session.Follows record) {before : List Step} {step : Step}
    (hstep : (before.foldl LoadRecord.step record).step step =
      before.foldl LoadRecord.step record) (later : List Step) :
    (session.run (before ++ step :: later)).drop (before.length + 1) =
      (session.run (before ++ later)).drop before.length := by
  have hbefore := hfollows.after before
  have hafter := (hbefore.step step).1
  rw [hstep] at hafter
  rw [drop_run_append_cons, drop_run_append, hafter.run_eq, hbefore.run_eq]

/-! ## Models without a file -/

/-- The answer of an engine that has no file. -/
def fixedAnswer (engine : Engine) : Step → Option (Except EngineError Report)
  | .ask query => some (engine.answer query)
  | .reload => some (.error .noBackingFile)
  | .write _ => none

theorem run_eq_map_fixedAnswer {session : Session} {engine : Engine}
    (hpath : engine.path? = none)
    (hcontinues : session.engine.Continues engine) (steps : List Step) :
    session.run steps = steps.map (fixedAnswer engine) := by
  induction steps generalizing session with
  | nil => rfl
  | cons step steps ih =>
      suffices h : (session.step step).2 = fixedAnswer engine step ∧
          (session.step step).1.engine.Continues engine by
        rw [List.map_cons, ← h.1, ← ih h.2]
        rfl
      cases step with
      | ask query =>
          exact ⟨congrArg some (hcontinues.answer_eq query),
            hcontinues.ask query⟩
      | write content => exact ⟨rfl, hcontinues⟩
      | reload =>
          have hreload : session.reload = (session, .error .noBackingFile) := by
            unfold Session.reload Engine.reload
            rw [hcontinues.path?_eq, hpath]
          simp only [Session.step, hreload]
          exact ⟨rfl, hcontinues⟩

/-! ## Freshness -/

/-- A session that starts with a loaded file answers every step as the record of
its loads does.  Neither a question nor a load that fails can be noticed in the
answers that follow.  A session on a model without a file never changes its
answers and cannot load again. -/
theorem run_answers_as_fresh (path : String) (excludeTests : Bool) :
    (∀ content engine
      (hload : Engine.load path excludeTests content = .ok engine),
      let session : Session := ⟨engine, content⟩
      (∀ steps, session.run steps = (LoadRecord.start hload).run steps) ∧
      (∀ before query later,
        (session.run (before ++ .ask query :: later)).drop
            (before.length + 1) =
          (session.run (before ++ later)).drop before.length) ∧
      (∀ before error later,
        (session.run (before ++ [.reload])).drop before.length =
            [some (.error error)] →
        (session.run (before ++ .reload :: later)).drop
            (before.length + 1) =
          (session.run (before ++ later)).drop before.length)) ∧
    (∀ model engine, Engine.ofModel none excludeTests model = .ok engine →
      ∀ file steps,
        (Session.mk engine file).run steps =
          steps.map (fixedAnswer engine)) := by
  refine ⟨?_, ?_⟩
  · intro content engine hload session
    have hstart : session.Follows (LoadRecord.start hload) :=
      ⟨rfl, .inl rfl⟩
    refine ⟨hstart.run_eq, ?_, ?_⟩
    · intro before query later
      exact hstart.drop_run_eq rfl later
    · intro before error later hfails
      apply hstart.drop_run_eq
      generalize hrecord :
        before.foldl LoadRecord.step (LoadRecord.start hload) = record
      have hbefore := hstart.after before
      rw [hrecord] at hbefore
      rw [drop_run_append, hbefore.run_eq] at hfails
      simp only [LoadRecord.run, LoadRecord.answer] at hfails
      cases hagain : Engine.load path excludeTests record.file with
      | ok fresh => simp [hagain] at hfails
      | error error => exact LoadRecord.reload_of_error hagain
  · intro model engine hmodel file steps
    exact run_eq_map_fixedAnswer (Engine.origin_of_ofModel hmodel).1
      (.inl rfl) steps

/-- Two classes, of which the first calls the second, are loaded; then the file
goes away and an attempt to load it again fails. -/
theorem run_answers_as_fresh_two_classes :
    ∃ (content : FileContent) (engine : Engine)
      (hload : Engine.load "model.json" true content = .ok engine),
      engine.analysis.model.names = ["A", "B"] ∧
      (Session.mk engine content).run
          [.ask .dendrogram, .write (.error .notFound), .reload,
            .ask .dendrogram] =
        (LoadRecord.start hload).run
          [.ask .dendrogram, .write (.error .notFound), .reload,
            .ask .dendrogram] := by
  let text :=
    "[[[\"A\",\"\",0,[[\"f\",0,0,[\"g:0\"]]]],[\"B\",\"\",0,[[\"g\"]]]]]"
  have hnames : (Engine.load "model.json" true (.ok text.toUTF8)).toOption.map
      (·.analysis.model.names) = some ["A", "B"] := by cbv
  cases hload : Engine.load "model.json" true (.ok text.toUTF8) with
  | error error =>
      rw [hload] at hnames
      cases hnames
  | ok engine =>
      rw [hload] at hnames
      exact ⟨.ok text.toUTF8, engine, hload, Option.some.inj hnames,
        ((run_answers_as_fresh "model.json" true).1 _ _ hload).1 _⟩

end Session

end ModuleRecovery
