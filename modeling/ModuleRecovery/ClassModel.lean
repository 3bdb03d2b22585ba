import ModuleRecovery.Signature
import Std.Data.ExtTreeSet

/-!
# Class models

A model lists the classes under analysis with the methods of each, and for each
method the set of signatures that it calls.  Classes are known by their
qualified names, which are pairwise distinct: when classes are collected into a
model, the first class of each name is kept.  Classes and methods are addressed
by position.
-/

namespace ModuleRecovery

/-- The signatures that a method calls, each once, in their order. -/
abbrev CallSet : Type :=
  Std.ExtTreeSet CallSignature

structure MethodUnit where
  name : String
  paramCount : UInt32
  lineCount : UInt32
  calls : CallSet

/-- The signature by which other methods reach this one. -/
def MethodUnit.signature (method : MethodUnit) : CallSignature :=
  ⟨method.name, method.paramCount⟩

/-- A class with its methods in the order of declaration. -/
structure ClassUnit where
  name : String
  package : String
  attributeCount : UInt32
  methods : List MethodUnit

/-- The name of the class inside its package; the unnamed package adds nothing. -/
def ClassUnit.qualifiedName (unit : ClassUnit) : String :=
  if unit.package.isEmpty then unit.name
  else unit.package ++ "." ++ unit.name

/-- The position of a method: that of its class, and its own inside the class. -/
structure MethodId where
  classIndex : Nat
  methodIndex : Nat
  deriving DecidableEq, Hashable, Repr

/-- The classes of the list that are the first of their qualified name and whose
name is not among `seen`. -/
def firstsNotIn (seen : List String) : List ClassUnit → List ClassUnit
  | [] => []
  | unit :: units =>
    if unit.qualifiedName ∈ seen then firstsNotIn seen units
    else unit :: firstsNotIn (unit.qualifiedName :: seen) units

/-- The qualified names of the classes that are left out because an earlier class
has the name, or because it is among `seen`. -/
def repeatsNotIn (seen : List String) : List ClassUnit → List String
  | [] => []
  | unit :: units =>
    if unit.qualifiedName ∈ seen then
      unit.qualifiedName :: repeatsNotIn seen units
    else repeatsNotIn (unit.qualifiedName :: seen) units

theorem qualifiedName_notMem_of_mem_firstsNotIn {seen : List String}
    {units : List ClassUnit} {unit : ClassUnit}
    (h : unit ∈ firstsNotIn seen units) : unit.qualifiedName ∉ seen := by
  induction units generalizing seen with
  | nil => simp [firstsNotIn] at h
  | cons head tail ih =>
    unfold firstsNotIn at h
    split at h
    · exact ih h
    · rename_i hhead
      rcases List.mem_cons.mp h with rfl | htail
      · exact hhead
      · exact fun hseen => ih htail (List.mem_cons_of_mem _ hseen)

theorem nodup_map_firstsNotIn (seen : List String) (units : List ClassUnit) :
    ((firstsNotIn seen units).map ClassUnit.qualifiedName).Nodup := by
  induction units generalizing seen with
  | nil => simp [firstsNotIn]
  | cons head tail ih =>
    unfold firstsNotIn
    split
    · exact ih seen
    · rw [List.map_cons, List.nodup_cons]
      refine ⟨fun hmem => ?_, ih _⟩
      obtain ⟨unit, hunit, hname⟩ := List.mem_map.mp hmem
      exact qualifiedName_notMem_of_mem_firstsNotIn hunit
        (hname ▸ List.mem_cons_self)

structure ClassModel where
  classes : List ClassUnit
  distinct : (classes.map ClassUnit.qualifiedName).Nodup

namespace ClassModel

/-- Collects classes, keeping the first of each qualified name. -/
def ofClasses (units : List ClassUnit) : ClassModel where
  classes := firstsNotIn [] units
  distinct := nodup_map_firstsNotIn [] units

/-- The qualified names of the classes that collecting leaves out. -/
def repeats (units : List ClassUnit) : List String :=
  repeatsNotIn [] units

def retain (model : ClassModel) (accepts : ClassUnit → Bool) : ClassModel where
  classes := model.classes.filter accepts
  distinct := model.distinct.sublist (List.filter_sublist.map _)

/-- The qualified names of the classes, in their order. -/
def names (model : ClassModel) : List String :=
  model.classes.map ClassUnit.qualifiedName

def size (model : ClassModel) : Nat :=
  model.classes.length

/-- The position of the class with the given qualified name. -/
def classIndex? (model : ClassModel) (name : String) : Option Nat :=
  model.names.findIdx? (· == name)

/-- The class with the given qualified name is in the model. -/
def hasClass (model : ClassModel) (name : String) : Bool :=
  (model.classIndex? name).isSome

/-- The methods of a class at the given position, with their positions. -/
def methodsOf (classIndex : Nat) (unit : ClassUnit) :
    List (MethodId × MethodUnit) :=
  unit.methods.zipIdx.map fun (method, index) => (⟨classIndex, index⟩, method)

/-- All methods with their positions, class by class in order of declaration. -/
def methods (model : ClassModel) : List (MethodId × MethodUnit) :=
  model.classes.zipIdx.flatMap fun (unit, index) => methodsOf index unit

def methodCount (model : ClassModel) : Nat :=
  (model.classes.flatMap (·.methods)).length

def name? (model : ClassModel) (classIndex : Nat) : Option String :=
  model.names[classIndex]?

def method? (model : ClassModel) (id : MethodId) : Option MethodUnit := do
  let unit ← model.classes[id.classIndex]?
  unit.methods[id.methodIndex]?

/-- The label `Class.method:arity` of the method at a position. -/
def label? (model : ClassModel) (id : MethodId) : Option String := do
  let unit ← model.classes[id.classIndex]?
  let method ← unit.methods[id.methodIndex]?
  return unit.qualifiedName ++ "." ++ method.signature.toText

theorem name?_of_getElem? {model : ClassModel} {i : Nat} {a : ClassUnit}
    (hi : model.classes[i]? = some a) :
    model.name? i = some a.qualifiedName := by
  rw [name?, names, List.getElem?_map, hi]
  rfl

theorem exists_of_name?_eq_some {model : ClassModel} {k : Nat} {name : String}
    (h : model.name? k = some name) :
    ∃ unit, model.classes[k]? = some unit ∧ unit.qualifiedName = name := by
  rw [name?, names, List.getElem?_map] at h
  exact Option.map_eq_some_iff.mp h

theorem name?_eq_some_iff {model : ClassModel} {i k : Nat} {a : ClassUnit}
    (hi : model.classes[i]? = some a) :
    model.name? k = some a.qualifiedName ↔ k = i := by
  have hname := name?_of_getElem? hi
  constructor
  · intro hk
    have hbound := (List.getElem?_eq_some_iff.mp hk).1
    exact (List.getElem?_inj hbound model.distinct).mp (hk.trans hname.symm)
  · rintro rfl
    exact hname

end ClassModel

end ModuleRecovery
