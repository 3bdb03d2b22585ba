import ModuleRecovery.Engine

/-!
# Reports for the terminal

The text of each view of an analysis.  Scores have six places, in the matrix
four.  In the matrix the names are padded to a common width: the number of bytes
of the longest one, counted off in characters.
-/

namespace ModuleRecovery

/-- What can be shown of an analysis. -/
inductive View where
  | summary
  | callGraph
  | coupling (limit? : Option Nat)
  | pair (a b : String)
  | matrix
  | dendrogram
  | modules (threshold : Float) (asJson : Bool)

namespace Terminal

def lines (texts : List String) : String :=
  String.join (texts.map (· ++ "\n"))

def rule : String :=
  String.ofList (List.replicate 80 '=')

/-- The names with a comma and a blank between them. -/
def listed (names : List String) : String :=
  ", ".intercalate names

def braced (names : List String) : String :=
  "\x7b" ++ listed names ++ "\x7d"

def scoreText (score : Float) : String :=
  String.ofList (Decimal.writePlaces 6 score)

def cellText (score : Float) : String :=
  String.ofList (Decimal.writePlaces 4 score)

/-- The text with blanks after it, up to the given number of characters. -/
def padEnd (width : Nat) (text : String) : String :=
  text ++ String.ofList (List.replicate (width - text.length) ' ')

/-- The text with blanks before it, up to the given number of characters. -/
def padStart (width : Nat) (text : String) : String :=
  String.ofList (List.replicate (width - text.length) ' ') ++ text

def numbered (texts : List String) : List String :=
  texts.zipIdx.map fun (text, index) => toString (index + 1) ++ ". " ++ text

def summary (report : Health) : String :=
  let excluded :=
    if report.excludeTests then
      " (" ++ toString report.excludedTestClasses ++ " test classes excluded)"
    else ""
  lines
    ["Model: " ++ report.modelPath,
     "  Classes: " ++ toString report.classCount ++ excluded,
     "  Methods: " ++ toString report.methodCount,
     "  Call edges: " ++ toString report.callEdges,
     "  Resolved calls: " ++ toString report.resolvedCalls,
     "  Unresolved calls: " ++ toString report.unresolvedCalls,
     "  Coupled class pairs: " ++ toString report.coupledPairs]

def callGraph (report : CallGraphReport) : String :=
  lines <|
    ("Call graph: " ++ toString report.methodCount ++ " methods, " ++
      toString report.edgeCount ++ " calls") ::
    rule ::
    report.methods.flatMap fun entry =>
      entry.method :: entry.calls.map ("  -> " ++ ·)

def pairText (report : PairReport) : String :=
  report.first ++ "-" ++ report.second ++ ": " ++ scoreText report.score ++
    " (" ++ toString report.raw ++ " calls)"

def coupling (report : CouplingReport) : String :=
  lines <|
    ("Class coupling (" ++ toString report.pairCount ++ " pairs, " ++
      toString report.total ++ " inter-class calls):") ::
    rule ::
    numbered (report.pairs.map pairText)

def matrix (report : MatrixReport) : String :=
  let width := (report.classes.map String.utf8ByteSize).foldl max 0
  let heading := padEnd width "" ++
    String.join ((List.range report.classes.length).map fun index =>
      " " ++ padStart 8 (toString index))
  let row (entry : (String × List Float) × Nat) : String :=
    padEnd width entry.1.1 ++
      String.join (entry.1.2.map fun score => " " ++ padStart 8 (cellText score)) ++
      "  [" ++ toString entry.2 ++ "]"
  lines (heading :: ((report.classes.zip report.values).zipIdx.map row))

def dendrogram (report : DendrogramReport) : String :=
  let levels := report.levels.zipIdx.map fun (level, index) =>
    "Level " ++ toString index ++ ": " ++ " ".intercalate (level.map braced)
  let merges := report.merges.map fun step =>
    "  " ++ toString step.level ++ ". " ++ braced step.left ++ " + " ++
      braced step.right ++ " at " ++ scoreText step.coupling
  let steps := if merges.isEmpty then [] else "" :: "Merges:" :: merges
  lines <|
    ("Dendrogram over " ++ toString report.classCount ++ " classes:") ::
    rule :: (levels ++ steps)

def modules (report : ModulesReport) : String :=
  lines <|
    ("Modules with internal coupling >= " ++
      EngineError.thresholdText report.threshold ++ " (" ++
      toString report.modules.length ++ " found, at most " ++
      toString (report.classCount / 2) ++ "):") ::
    rule ::
    numbered (report.modules.map fun entry =>
      "[" ++ scoreText entry.internalCoupling ++ "] " ++ listed entry.classes)

end Terminal

def Engine.render (engine : Engine) : View → Except EngineError String
  | .summary => .ok (Terminal.summary engine.health)
  | .callGraph => .ok (Terminal.callGraph engine.callGraph)
  | .coupling limit? => .ok (Terminal.coupling (engine.coupling limit?))
  | .pair a b =>
    (engine.pair a b).map fun report => Terminal.lines [Terminal.pairText report]
  | .matrix => .ok (Terminal.matrix engine.matrix)
  | .dendrogram => .ok (Terminal.dendrogram engine.dendrogram.2)
  | .modules threshold asJson =>
    (engine.modules threshold).2.map fun report =>
      if asJson then Terminal.lines [report.toJson.indented]
      else Terminal.modules report

end ModuleRecovery
