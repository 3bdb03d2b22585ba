import ModuleRecovery.TestCode
import Mathlib.Tactic

/-!
# Packages of test code

A package is written as parts with a separator between any two of them, and the
parts that are not empty are its segments.  Splitting undoes the writing, so two
packages joined by a separator have the segments of the outer one followed by
those of the inner one, wherever else separators stand.

Every convention asks for one thing of some segment and for another of the class
name.  A class in the joined package is therefore test code exactly if it would
be test code in one of the two, and only the set of the segments matters.
-/

namespace ModuleRecovery.TestConvention

/-! ## Writing packages -/

inductive Separator where
  | dot
  | slash
  deriving DecidableEq, Repr

def Separator.text : Separator → String
  | dot => "."
  | slash => "/"

/-- One package inside another. -/
def nest (outer : String) (separator : Separator) (inner : String) : String :=
  outer ++ separator.text ++ inner

/-- A text without separators, perhaps empty. -/
def Part : Type :=
  {text : String // ∀ c ∈ text.toList, isSeparator c = false}

/-- A package as it is written, part by part. -/
inductive Spelling where
  | single (part : Part)
  | inside (part : Part) (separator : Separator) (rest : Spelling)

def Spelling.text : Spelling → String
  | single part => part.val
  | inside part separator rest => nest part.val separator rest.text

def Spelling.parts : Spelling → List String
  | single part => [part.val]
  | inside part _ rest => part.val :: rest.parts

def Spelling.segments (spelling : Spelling) : List String :=
  spelling.parts.filter (· ≠ "")

theorem Separator.exists_toList_text {c : Char} (h : isSeparator c = true) :
    ∃ separator : Separator, separator.text.toList = [c] := by
  have hcases : c = '.' ∨ c = '/' := by simpa [isSeparator] using h
  rcases hcases with rfl | rfl
  · exact ⟨.dot, rfl⟩
  · exact ⟨.slash, rfl⟩

theorem Spelling.exists_text_append {text : String}
    (htext : ∀ c ∈ text.toList, isSeparator c = false) (spelling : Spelling) :
    ∃ longer : Spelling, longer.text = text ++ spelling.text := by
  have hlonger : ∀ part : Part, ∀ c ∈ (text ++ part.val).toList,
      isSeparator c = false := by
    intro part c hc
    rw [String.toList_append, List.mem_append] at hc
    exact hc.elim (htext c) (part.property c)
  cases spelling with
  | single part => exact ⟨.single ⟨_, hlonger part⟩, rfl⟩
  | inside part separator rest =>
      use .inside ⟨_, hlonger part⟩ separator rest
      simp [Spelling.text, nest, String.append_assoc]

theorem exists_spelling (package : String) :
    ∃ spelling : Spelling, spelling.text = package := by
  suffices h : ∀ characters : List Char,
      ∃ spelling : Spelling, spelling.text.toList = characters by
    rcases h package.toList with ⟨spelling, hspelling⟩
    exact ⟨spelling, String.toList_inj.mp hspelling⟩
  intro characters
  induction characters with
  | nil => exact ⟨.single ⟨"", by simp⟩, rfl⟩
  | cons c rest ih =>
      rcases ih with ⟨spelling, hspelling⟩
      -- a separator in front leaves an empty first part; any other character
      -- belongs to the first part of the rest
      by_cases hc : isSeparator c = true
      · rcases Separator.exists_toList_text hc with ⟨separator, hseparator⟩
        use .inside ⟨"", by simp⟩ separator spelling
        simp [Spelling.text, nest, hseparator, hspelling]
      · have htext : ∀ x ∈ (String.ofList [c]).toList, isSeparator x = false := by
          simpa using hc
        rcases spelling.exists_text_append htext with ⟨longer, hlonger⟩
        use longer
        rw [hlonger, String.toList_append, hspelling, String.toList_ofList]
        rfl

/-! ## Splitting packages -/

theorem pieces_eq_splitOnP (text : List Char) :
    pieces text = text.splitOnP isSeparator := by
  induction text with
  | nil => simp [pieces]
  | cons c rest ih =>
      rw [pieces, List.splitOnP_cons_eq_if_modifyHead, ih]
      by_cases hc : isSeparator c = true
      · rw [if_pos hc, if_pos hc]
      · rw [if_neg hc, if_neg hc]
        cases hrest : rest.splitOnP isSeparator with
        | nil => exact absurd hrest (List.splitOnP_ne_nil _ _)
        | cons piece more => rfl

theorem segments_nest (outer : String) (separator : Separator)
    (inner : String) :
    segments (nest outer separator inner) =
      segments outer ++ segments inner := by
  have hpieces : pieces (nest outer separator inner).toList =
      pieces outer.toList ++ pieces inner.toList := by
    rw [pieces_eq_splitOnP, pieces_eq_splitOnP, pieces_eq_splitOnP, nest,
      String.toList_append, String.toList_append, List.append_assoc]
    cases separator with
    | dot => exact List.splitOnP_append_cons _ _ rfl
    | slash => exact List.splitOnP_append_cons _ _ rfl
  unfold segments
  rw [hpieces, List.filter_append, List.map_append]

theorem segments_part (part : Part) :
    segments part.val = [part.val].filter (· ≠ "") := by
  unfold segments
  rw [pieces_eq_splitOnP, List.splitOnP_eq_singleton part.property]
  by_cases hempty : part.val = ""
  · simp [hempty]
  · simp [hempty]

theorem segments_text (spelling : Spelling) :
    segments spelling.text = spelling.segments := by
  unfold Spelling.segments
  induction spelling with
  | single part => exact segments_part part
  | inside part separator rest ih =>
      rw [Spelling.text, Spelling.parts, segments_nest, segments_part, ih,
        ← List.filter_append, List.singleton_append]

example : segments "com.acme/test..util" = ["com", "acme", "test", "util"] := by
  decide

/-! ## Verdicts -/

/-- What the convention asks of a segment. -/
def marksSegment (convention : TestConvention) (segment : String) : Bool :=
  match convention with
  | java => isJavaTestSegment segment
  | python => isPythonTestSegment segment
  | universal => isJavaTestSegment segment || isPythonTestSegment segment

/-- What the convention asks of a class name. -/
def marksName (convention : TestConvention) (name : String) : Bool :=
  match convention with
  | java => hasJavaTestName name
  | python => false
  | universal => hasJavaTestName name

theorem covers_eq (convention : TestConvention) (name package : String) :
    convention.covers name package =
      ((segments package).any convention.marksSegment ||
        convention.marksName name) := by
  cases convention with
  | java => rfl
  | python => exact (Bool.or_false _).symm
  | universal =>
      have hany : (segments package).any universal.marksSegment =
          ((segments package).any isJavaTestSegment ||
            (segments package).any isPythonTestSegment) := by
        rw [Bool.eq_iff_iff]
        simp [marksSegment, and_or_left, exists_or]
      rw [hany]
      exact Bool.or_right_comm _ _ _

theorem covers_nest (convention : TestConvention) (name outer : String)
    (separator : Separator) (inner : String) :
    convention.covers name (nest outer separator inner) =
      (convention.covers name outer || convention.covers name inner) := by
  rw [Bool.eq_iff_iff]
  simp only [covers_eq, segments_nest, List.any_append, Bool.or_eq_true]
  exact or_or_distrib_right

theorem covers_text (convention : TestConvention) (name : String)
    (spelling : Spelling) :
    convention.covers name spelling.text =
      (spelling.segments.any convention.marksSegment ||
        convention.marksName name) := by
  rw [covers_eq, segments_text]

theorem covers_text_congr (convention : TestConvention) (name : String)
    {a b : Spelling} (h : ∀ segment, segment ∈ a.segments ↔ segment ∈ b.segments) :
    convention.covers name a.text = convention.covers name b.text := by
  rw [covers_text, covers_text]
  congr 1
  rw [Bool.eq_iff_iff, List.any_eq_true, List.any_eq_true]
  simp only [h]

theorem python_covers_of_java_segment {package : String} (name : String)
    (h : (segments package).any isJavaTestSegment = true) :
    python.covers name package = true := by
  apply List.any_eq_true.mpr
  rcases List.any_eq_true.mp h with ⟨segment, hsegment, htest⟩
  have heq : segment = "test" := beq_iff_eq.mp htest
  use segment, hsegment
  simp [isPythonTestSegment, heq]

/-- A class in an inner package is test code exactly if it would be test code in
the outer package or in the inner one alone.  So the verdict is told by the set of
the segments, in whatever order and between whatever separators and empty parts
they are written.  It is kept when the package is nested deeper, and what is test
code in Java by its package is test code in Python. -/
theorem covers_by_segments (convention : TestConvention) (name : String) :
    (∀ outer separator inner,
      convention.covers name (nest outer separator inner) =
        (convention.covers name outer || convention.covers name inner)) ∧
      (∀ package, ∃ spelling : Spelling, spelling.text = package) ∧
      (∀ spelling : Spelling, convention.covers name spelling.text =
        (spelling.segments.any convention.marksSegment ||
          convention.marksName name)) ∧
      (∀ a b : Spelling,
        (∀ segment, segment ∈ a.segments ↔ segment ∈ b.segments) →
          convention.covers name a.text = convention.covers name b.text) ∧
      (∀ outer separator inner,
        convention.covers name outer = true ∨
            convention.covers name inner = true →
          convention.covers name (nest outer separator inner) = true) ∧
      (∀ package, (segments package).any isJavaTestSegment = true →
        python.covers name package = true) ∧
      ∀ package, java.covers name package = true →
        hasJavaTestName name = false → python.covers name package = true := by
  refine ⟨covers_nest convention name, exists_spelling,
    covers_text convention name, ?_, ?_, ?_, ?_⟩
  · intro a b hsame
    exact covers_text_congr convention name hsame
  · intro outer separator inner htest
    rw [covers_nest]
    exact (Bool.or_eq_true _ _).mpr htest
  · intro package hsegment
    exact python_covers_of_java_segment name hsegment
  · intro package htest hname
    apply python_covers_of_java_segment
    exact ((Bool.or_eq_true _ _).mp htest).resolve_right (by simp [hname])

end ModuleRecovery.TestConvention
