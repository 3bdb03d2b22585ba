import ModuleRecovery.ClassModel.Document
import ModuleRecovery.Engine.Error
import ModuleRecovery.Identification
import ModuleRecovery.Report
import ModuleRecovery.TestCode

/-!
# The analysis engine

An engine holds the analysis of one class model and answers questions about it.
An engine that was made from a file can be loaded again from the content that the
file has then.  It keeps its path and its choice about test classes; if loading
fails, it stays as it was.
-/

namespace ModuleRecovery

/-- A model with its resolved calls and the coupling that they give.  The
clustering is made when it is first asked for, and kept. -/
structure Analysis where
  model : ClassModel
  resolution : Resolution
  coupling : Coupling
  kept? : Option (Clustering Float)

namespace Analysis

/-- Analyses a model, unless its calls are too many to be counted. -/
def ofModel? (model : ClassModel) : Option Analysis :=
  let resolution := model.resolve
  (Coupling.ofResolution? model resolution).map fun coupling =>
    ⟨model, resolution, coupling, none⟩

/-- The analysis that keeps the clustering of the classes in their order, and the
clustering. -/
def clustering (analysis : Analysis) : Analysis × Clustering Float :=
  match analysis.kept? with
  | some kept => (analysis, kept)
  | none =>
    let made := .run analysis.coupling analysis.model.names.toArray
    ({ analysis with kept? := some made }, made)

end Analysis

/-- The content of a file, or why there is none. -/
abbrev FileContent : Type :=
  Except FileFault ByteArray

def FileContent.text (content : FileContent) : Except FileFault String :=
  match content with
  | .error fault => .error fault
  | .ok bytes =>
    match String.fromUTF8? bytes with
    | some text => .ok text
    | none => .error .notText

def ClassModel.load (path : String) (content : FileContent) :
    Except LoadError ClassModel :=
  match content.text with
  | .error fault => .error (.unreadable path fault)
  | .ok text =>
    match (Document.readModel text).2 with
    | .error fault => .error (.malformed path fault)
    | .ok model => .ok model

/-- The model without its test classes, and how many these were. -/
def ClassModel.withoutTests (model : ClassModel) : ClassModel × Nat :=
  (model.retain (!·.isTest), model.classes.countP ClassUnit.isTest)

/-- The analysis of a model and where the model came from. -/
structure Engine where
  path? : Option String
  excludeTests : Bool
  /-- The number of test classes that were left out. -/
  excludedTests : Nat
  analysis : Analysis

namespace Engine

/-- The number of test classes left out and the analysis of the others. -/
def analyse (excludeTests : Bool) (model : ClassModel) :
    Except LoadError (Nat × Analysis) :=
  let (model, excludedTests) :=
    if excludeTests then model.withoutTests else (model, 0)
  match Analysis.ofModel? model with
  | some analysis => .ok (excludedTests, analysis)
  | none => .error .countOverflow

def ofModel (path? : Option String) (excludeTests : Bool)
    (model : ClassModel) : Except LoadError Engine :=
  match analyse excludeTests model with
  | .ok (excludedTests, analysis) =>
    .ok ⟨path?, excludeTests, excludedTests, analysis⟩
  | .error error => .error error

def load (path : String) (excludeTests : Bool) (content : FileContent) :
    Except LoadError Engine :=
  match ClassModel.load path content with
  | .ok model => ofModel (some path) excludeTests model
  | .error error => .error error

/-- Puts the analysis of the content that the file has now in the place of the
one before. -/
def reload (engine : Engine) (content : FileContent) :
    Except EngineError Engine :=
  match engine.path? with
  | none => .error .noBackingFile
  | some path =>
    match ClassModel.load path content with
    | .error error => .error (.load error)
    | .ok model =>
      match analyse engine.excludeTests model with
      | .error error => .error (.load error)
      | .ok (excludedTests, analysis) =>
        .ok { engine with excludedTests, analysis }

/-- The size of the analysed model. -/
def health (engine : Engine) : Health where
  modelPath := engine.path?.getD ""
  excludeTests := engine.excludeTests
  classCount := engine.analysis.model.size
  excludedTestClasses := engine.excludedTests
  methodCount := engine.analysis.model.methodCount
  callEdges := engine.analysis.resolution.graph.edgeCount
  resolvedCalls := engine.analysis.resolution.found.length
  unresolvedCalls := engine.analysis.resolution.unresolved
  coupledPairs :=
    (engine.analysis.coupling.normalized : PairScores Float).size

/-- The methods and the calls between them. -/
def callGraph (engine : Engine) : CallGraphReport :=
  let model := engine.analysis.model
  let graph := engine.analysis.resolution.graph
  { methodCount := graph.methodCount
    edgeCount := graph.edgeCount
    methods := model.methods.filterMap fun (id, _) =>
      (model.label? id).map fun label =>
        ⟨label, (graph.callees id).filterMap model.label?⟩ }

def pairReport (entry : RankedPair Float) : PairReport :=
  ⟨entry.pair.first, entry.pair.second, entry.raw, entry.score⟩

/-- The coupled pairs, strongest first, and at most `limit?` of them. -/
def coupling (engine : Engine) (limit? : Option Nat) : CouplingReport :=
  let ranked := engine.analysis.coupling.ranked
  let listed :=
    match limit? with
    | some limit => ranked.take limit
    | none => ranked
  { total := engine.analysis.coupling.total
    pairCount := ranked.length
    pairs := listed.map pairReport }

/-- The coupling of two classes of the model. -/
def pair (engine : Engine) (a b : String) : Except EngineError PairReport :=
  let model := engine.analysis.model
  if !model.hasClass a then .error (.classNotFound a)
  else if !model.hasClass b then .error (.classNotFound b)
  else
    let names := ClassPair.of a b
    .ok ⟨names.first, names.second, engine.analysis.coupling.rawBetween a b,
      engine.analysis.coupling.between a b⟩

def matrix (engine : Engine) : MatrixReport :=
  let classes := Coupling.sortedNames engine.analysis.model.names
  ⟨classes, engine.analysis.coupling.table classes⟩

/-- The engine that keeps the clustering of its classes, and the clustering. -/
def clustering (engine : Engine) : Engine × Clustering Float :=
  let (analysis, clustering) := engine.analysis.clustering
  ({ engine with analysis }, clustering)

def dendrogramReport (clustering : Clustering Float) : DendrogramReport where
  classCount := clustering.classCount
  levels := clustering.dendrogram.levels.map (·.map clustering.classNames)
  merges := clustering.dendrogram.merges.map fun step =>
    ⟨step.level, clustering.classNames step.left,
      clustering.classNames step.right, step.coupling⟩

/-- The clustering of the classes, after the engine that keeps it. -/
def dendrogram (engine : Engine) : Engine × DendrogramReport :=
  let (engine, clustering) := engine.clustering
  (engine, dendrogramReport clustering)

/-- A threshold is a finite number from zero to one. -/
def threshold (value : Float) : Except EngineError (Threshold Float) :=
  if value.isFinite then
    match Threshold.ofValue? value with
    | some threshold => .ok threshold
    | none => .error (.invalidThreshold value)
  else .error (.invalidThreshold value)

def defaultThreshold : Float := 0.02

/-- The modules of a clustering as they are reported. -/
def modulesReport (clustering : Clustering Float)
    (threshold : Threshold Float) : ModulesReport where
  threshold := threshold.value
  classCount := clustering.classCount
  modules := (clustering.identify threshold).map fun found =>
    ⟨clustering.classNames found.cluster, found.internalCoupling⟩

/-- The modules for a threshold, after the engine that keeps the clustering. -/
def modules (engine : Engine) (value : Float) :
    Engine × Except EngineError ModulesReport :=
  match threshold value with
  | .error error => (engine, .error error)
  | .ok threshold =>
    let (engine, clustering) := engine.clustering
    (engine, .ok (modulesReport clustering threshold))

end Engine

inductive Query where
  | health
  | callGraph
  | coupling (limit? : Option Nat)
  | pair (a b : String)
  | matrix
  | dendrogram
  | modules (threshold : Float)

/-- The largest number of pairs that can be asked for. -/
def Query.maxLimit : Nat := 0xFFFFFFFFFFFFFFFF

namespace Engine

/-- The answer of an engine, after the engine as it is then. -/
def ask (engine : Engine) : Query → Engine × Except EngineError Report
  | .health => (engine, .ok (.health engine.health))
  | .callGraph => (engine, .ok (.callGraph engine.callGraph))
  | .coupling limit? => (engine, .ok (.coupling (engine.coupling limit?)))
  | .pair a b => (engine, (engine.pair a b).map .pair)
  | .matrix => (engine, .ok (.matrix engine.matrix))
  | .dendrogram =>
    let (engine, report) := engine.dendrogram
    (engine, .ok (.dendrogram report))
  | .modules value =>
    let (engine, report) := engine.modules value
    (engine, report.map .modules)

def answer (engine : Engine) (query : Query) : Except EngineError Report :=
  (engine.ask query).2

end Engine

end ModuleRecovery
