import ModuleRecovery.Proofs.Document.RoundTrip
import Mathlib.Data.List.TakeWhile
import Std.Data.HashSet.Lemmas

/-!
# Collecting and retaining classes

A model holds the classes that are the first of their name in the list it was
collected from, less those that were not retained.  Names are compared as whole
texts, so two classes of different packages may well share one.  Whatever is
retained, names and places stay inverse to each other, and collecting the classes
of a model once more changes nothing.

The classes and their names can also be kept in two columns.  Collecting fills
both of them and remembers the names it has met, and retaining goes through both
of them at once; the columns stay the classes and the names of the model.
-/

namespace ModuleRecovery

/-! ## The first of each name -/

theorem firstsNotIn_append_singleton (seen : List String)
    (units : List ClassUnit) (unit : ClassUnit) :
    firstsNotIn seen (units ++ [unit]) =
      firstsNotIn seen units ++
        if unit.qualifiedName ∈ seen ++ units.map ClassUnit.qualifiedName then
          []
        else [unit] := by
  induction units generalizing seen with
  | nil => by_cases hseen : unit.qualifiedName ∈ seen <;>
      simp [firstsNotIn, hseen]
  | cons head tail ih =>
      rw [List.cons_append]
      unfold firstsNotIn
      by_cases hhead : head.qualifiedName ∈ seen
      · have hname : unit.qualifiedName ∈
            seen ++ (head :: tail).map ClassUnit.qualifiedName ↔
              unit.qualifiedName ∈
                seen ++ tail.map ClassUnit.qualifiedName := by
          grind
        simp only [if_pos hhead, ih seen, hname]
      · have hname : unit.qualifiedName ∈
            seen ++ (head :: tail).map ClassUnit.qualifiedName ↔
              unit.qualifiedName ∈ (head.qualifiedName :: seen) ++
                tail.map ClassUnit.qualifiedName := by
          grind
        simp only [if_neg hhead, ih (head.qualifiedName :: seen), hname,
          List.cons_append]

theorem ClassModel.classes_ofClasses_append_singleton
    (units : List ClassUnit) (unit : ClassUnit) :
    (ofClasses (units ++ [unit])).classes =
      (ofClasses units).classes ++
        if unit.qualifiedName ∈ units.map ClassUnit.qualifiedName then []
        else [unit] :=
  firstsNotIn_append_singleton [] units unit

/-- No class before the given place has the name of the class there. -/
def ClassUnit.firstAt (units : List ClassUnit) (place : ClassUnit × Nat) :
    Bool :=
  (units.take place.2).all (·.qualifiedName != place.1.qualifiedName)

theorem ClassUnit.firstAt_append_of_mem {units : List ClassUnit}
    {place : ClassUnit × ℕ} (h : place ∈ units.zipIdx) (unit : ClassUnit) :
    firstAt (units ++ [unit]) place = firstAt units place := by
  obtain ⟨hlt, -⟩ := List.mem_zipIdx' h
  unfold firstAt
  rw [List.take_append_of_le_length hlt.le]

theorem ClassModel.classes_ofClasses (units : List ClassUnit) :
    (ofClasses units).classes =
      (units.zipIdx.filter (ClassUnit.firstAt units)).map Prod.fst := by
  induction units using List.reverseRecOn with
  | nil => rfl
  | append_singleton units unit ih =>
      have hold : units.zipIdx.filter (ClassUnit.firstAt (units ++ [unit])) =
          units.zipIdx.filter (ClassUnit.firstAt units) :=
        List.filter_congr fun place hplace =>
          ClassUnit.firstAt_append_of_mem hplace unit
      have hlast : ClassUnit.firstAt (units ++ [unit]) (unit, units.length) =
          decide (unit.qualifiedName ∉
            units.map ClassUnit.qualifiedName) := by
        rw [Bool.eq_iff_iff, decide_eq_true_iff]
        simp [ClassUnit.firstAt]
      rw [classes_ofClasses_append_singleton, List.zipIdx_append,
        List.filter_append, List.map_append, hold, ih, Nat.zero_add,
        List.zipIdx_singleton, List.filter_singleton, hlast]
      by_cases hname :
          unit.qualifiedName ∈ units.map ClassUnit.qualifiedName
      · rw [if_pos hname, decide_eq_false (not_not.mpr hname)]
        rfl
      · rw [if_neg hname, decide_eq_true hname]
        rfl

namespace ClassModel

theorem eq_of_classes_eq {model other : ClassModel}
    (h : model.classes = other.classes) : model = other := by
  cases model
  cases other
  cases h
  rfl

/-! ## The first class of a name -/

def firstNamed? (units : List ClassUnit) (name : String) :
    Option ClassUnit :=
  units.find? (·.qualifiedName == name)

theorem firstNamed?_eq_none_iff {units : List ClassUnit} {name : String} :
    firstNamed? units name = none ↔
      name ∉ units.map ClassUnit.qualifiedName := by
  simp [firstNamed?]

theorem mem_of_firstNamed? {units : List ClassUnit} {name : String}
    {first : ClassUnit} (h : firstNamed? units name = some first) :
    first ∈ units ∧ first.qualifiedName = name :=
  ⟨List.mem_of_find?_eq_some h, by simpa using List.find?_some h⟩

theorem firstNamed?_append_singleton (units : List ClassUnit)
    (unit : ClassUnit) (name : String) :
    firstNamed? (units ++ [unit]) name =
      (firstNamed? units name).or
        (if unit.qualifiedName = name then some unit else none) := by
  unfold firstNamed?
  rw [List.find?_append, List.find?_singleton]
  simp

/-- Collecting keeps the first class of each name. -/
theorem mem_classes_ofClasses_iff (units : List ClassUnit)
    (unit : ClassUnit) :
    unit ∈ (ofClasses units).classes ↔
      firstNamed? units unit.qualifiedName = some unit := by
  induction units using List.reverseRecOn with
  | nil => simp [ofClasses, firstsNotIn, firstNamed?]
  | append_singleton units last ih =>
      rw [classes_ofClasses_append_singleton, List.mem_append, ih,
        firstNamed?_append_singleton, Option.or_eq_some_iff,
        firstNamed?_eq_none_iff]
      grind

theorem mem_names_ofClasses_iff (units : List ClassUnit) (name : String) :
    name ∈ (ofClasses units).names ↔
      name ∈ units.map ClassUnit.qualifiedName := by
  constructor
  · intro hname
    obtain ⟨unit, hunit, rfl⟩ := List.mem_map.mp hname
    rw [mem_classes_ofClasses_iff] at hunit
    exact List.mem_map_of_mem (mem_of_firstNamed? hunit).1
  · intro hname
    cases hfirst : firstNamed? units name with
    | none => exact absurd hname (firstNamed?_eq_none_iff.mp hfirst)
    | some first =>
        obtain ⟨-, rfl⟩ := mem_of_firstNamed? hfirst
        exact List.mem_map_of_mem
          ((mem_classes_ofClasses_iff units first).mpr hfirst)

/-- Removing all classes of some names is the same before and after collecting. -/
theorem classes_ofClasses_filter (accepts : String → Bool)
    (units : List ClassUnit) :
    (ofClasses (units.filter fun unit => accepts unit.qualifiedName)).classes =
      (ofClasses units).classes.filter fun unit =>
        accepts unit.qualifiedName := by
  induction units using List.reverseRecOn with
  | nil => rfl
  | append_singleton units last ih =>
      rw [classes_ofClasses_append_singleton, List.filter_append,
        List.filter_append, ← ih]
      by_cases haccepts : accepts last.qualifiedName = true
      · have hname : last.qualifiedName ∈
            (units.filter fun unit => accepts unit.qualifiedName).map
              ClassUnit.qualifiedName ↔
            last.qualifiedName ∈ units.map ClassUnit.qualifiedName := by
          grind
        have hlast : ([last].filter fun unit =>
            accepts unit.qualifiedName) = [last] := by
          simp [haccepts]
        rw [hlast, classes_ofClasses_append_singleton]
        simp only [hname]
        split
        · rfl
        · rw [hlast]
      · have hlast : ([last].filter fun unit =>
            accepts unit.qualifiedName) = [] := by
          simp [haccepts]
        rw [hlast, List.append_nil]
        split
        · rw [List.filter_nil, List.append_nil]
        · rw [hlast, List.append_nil]

/-! ## Names and places -/

theorem classIndex?_eq_some_iff (model : ClassModel) (name : String)
    (i : ℕ) : model.classIndex? name = some i ↔ model.name? i = some name := by
  have hnodup : model.names.Nodup := model.distinct
  unfold classIndex? name?
  rw [List.findIdx?_eq_some_iff_getElem]
  constructor
  · rintro ⟨hlt, hname, -⟩
    exact List.getElem?_eq_some_iff.mpr ⟨hlt, beq_iff_eq.mp hname⟩
  · intro hname
    obtain ⟨hlt, heq⟩ := List.getElem?_eq_some_iff.mp hname
    refine ⟨hlt, beq_iff_eq.mpr heq, ?_⟩
    intro j hj hother
    have hsame := (beq_iff_eq.mp hother).trans heq.symm
    exact hj.ne (hnodup.getElem_inj_iff.mp hsame)

theorem classIndex?_eq_none_iff (model : ClassModel) (name : String) :
    model.classIndex? name = none ↔
      ∀ unit ∈ model.classes, unit.qualifiedName ≠ name := by
  simp [classIndex?, names]

theorem classes_foldl_retain (accepts : List (ClassUnit → Bool))
    (model : ClassModel) :
    (accepts.foldl retain model).classes =
      model.classes.filter fun unit => accepts.all (· unit) := by
  induction accepts generalizing model with
  | nil => simp
  | cons first accepts ih =>
      rw [List.foldl_cons, ih]
      simp [retain, List.filter_filter, Bool.and_comm]

end ClassModel

/-! ## Names without dots -/

theorem ClassUnit.takeWhile_reverse_qualifiedName {unit : ClassUnit}
    (h : '.' ∉ unit.name.toList) :
    unit.qualifiedName.toList.reverse.takeWhile (· ≠ '.') =
      unit.name.toList.reverse := by
  have hname : ∀ c ∈ unit.name.toList.reverse, decide (c ≠ '.') = true := by
    intro c hc
    rw [List.mem_reverse] at hc
    exact decide_eq_true (ne_of_mem_of_not_mem hc h)
  unfold qualifiedName
  split
  · rw [List.takeWhile_eq_self_iff]
    exact hname
  · simp only [String.toList_append, List.reverse_append]
    rw [List.takeWhile_append_of_pos hname]
    simp

/-- Without a dot in the class name, the qualified name tells both parts. -/
theorem ClassUnit.eq_of_qualifiedName_eq {a b : ClassUnit}
    (ha : '.' ∉ a.name.toList) (hb : '.' ∉ b.name.toList)
    (h : a.qualifiedName = b.qualifiedName) :
    a.name = b.name ∧ a.package = b.package := by
  have hname : a.name = b.name := by
    apply String.toList_inj.mp
    rw [← List.reverse_inj, ← takeWhile_reverse_qualifiedName ha, h,
      takeWhile_reverse_qualifiedName hb]
  refine ⟨hname, ?_⟩
  unfold qualifiedName at h
  rw [hname] at h
  by_cases hpackage : a.package.isEmpty <;>
    by_cases hother : b.package.isEmpty
  · rw [String.isEmpty_iff.mp hpackage, String.isEmpty_iff.mp hother]
  · have hlength := congrArg String.length h
    simp [hpackage, hother] at hlength
  · have hlength := congrArg String.length h
    simp [hpackage, hother] at hlength
  · rw [if_neg hpackage, if_neg hother] at h
    simpa using h

/-! ## Two columns -/

/-- Classes and their names, place by place. -/
structure ClassColumns where
  classes : Array ClassUnit
  names : Array String

namespace ClassColumns

/-- Adds a class and its name, unless the name has been met. -/
def add (state : Std.HashSet String × ClassColumns) (unit : ClassUnit) :
    Std.HashSet String × ClassColumns :=
  let name := unit.qualifiedName
  if state.1.contains name then state
  else
    (state.1.insert name,
      ⟨state.2.classes.push unit, state.2.names.push name⟩)

def collect (units : List ClassUnit) : ClassColumns :=
  (units.foldl add (∅, ⟨#[], #[]⟩)).2

def retain (columns : ClassColumns) (accepts : ClassUnit → Bool) :
    ClassColumns :=
  let kept := (columns.classes.zip columns.names).filter fun entry =>
    accepts entry.1
  ⟨kept.unzip.1, kept.unzip.2⟩

/-- The columns are the classes and the names of the model. -/
structure Holds (columns : ClassColumns) (model : ClassModel) : Prop where
  classes : columns.classes.toList = model.classes
  names : columns.names.toList = model.names

/-- What has been met are the names of the classes so far, and the columns hold
the first of each. -/
theorem foldl_add (units : List ClassUnit) :
    let state := units.foldl add (∅, ⟨#[], #[]⟩)
    (∀ name, name ∈ state.1 ↔ name ∈ units.map ClassUnit.qualifiedName) ∧
      state.2.Holds (.ofClasses units) := by
  induction units using List.reverseRecOn with
  | nil => exact ⟨by simp, rfl, rfl⟩
  | append_singleton units unit ih =>
      rw [List.foldl_concat]
      generalize units.foldl add (∅, ⟨#[], #[]⟩) = state at ih
      obtain ⟨hseen, hclasses, hnames⟩ := ih
      have hfirsts :=
        ClassModel.classes_ofClasses_append_singleton units unit
      unfold add
      by_cases hname : unit.qualifiedName ∈ units.map ClassUnit.qualifiedName
      · rw [if_pos hname, List.append_nil] at hfirsts
        rw [if_pos (Std.HashSet.contains_iff_mem.mpr ((hseen _).mpr hname))]
        refine ⟨?_, ?_, ?_⟩
        · intro name
          rw [hseen]
          grind
        · rw [hfirsts, hclasses]
        · rw [ClassModel.names, hfirsts]
          exact hnames
      · rw [if_neg hname] at hfirsts
        rw [if_neg (mt Std.HashSet.contains_iff_mem.mp
          (mt (hseen _).mp hname))]
        refine ⟨?_, ?_, ?_⟩
        · intro name
          rw [Std.HashSet.mem_insert, hseen]
          grind
        · rw [hfirsts, Array.toList_push, hclasses]
        · rw [ClassModel.names, hfirsts, List.map_append, Array.toList_push,
            hnames]
          rfl

theorem Holds.retain {columns : ClassColumns} {model : ClassModel}
    (h : columns.Holds model) (accepts : ClassUnit → Bool) :
    (columns.retain accepts).Holds (model.retain accepts) := by
  have hzip : (columns.classes.zip columns.names).toList =
      model.classes.map fun unit => (unit, unit.qualifiedName) := by
    rw [Array.toList_zip, h.classes, h.names, List.map_prod_left_eq_zip]
    rfl
  have hkept : ((columns.classes.zip columns.names).filter fun entry =>
      accepts entry.1).toList =
        (model.retain accepts).classes.map fun unit =>
          (unit, unit.qualifiedName) := by
    rw [Array.toList_filter, hzip, List.filter_map]
    rfl
  unfold ClassColumns.retain
  constructor
  · dsimp only
    rw [Array.fst_unzip, Array.toList_map, hkept, List.map_map]
    exact List.map_id _
  · dsimp only
    rw [Array.snd_unzip, Array.toList_map, hkept, List.map_map]
    rfl

theorem Holds.foldl_retain {columns : ClassColumns} {model : ClassModel}
    (h : columns.Holds model) (accepts : List (ClassUnit → Bool)) :
    (accepts.foldl ClassColumns.retain columns).Holds
      (accepts.foldl ClassModel.retain model) := by
  induction accepts generalizing columns model with
  | nil => exact h
  | cons first accepts ih => exact ih (h.retain first)

end ClassColumns

namespace ClassModel

/-- The model holds those of the classes that are the first of their name and that
are accepted by all, and finds them by their names. -/
structure Selects (model : ClassModel) (units : List ClassUnit)
    (accepts : List (ClassUnit → Bool)) : Prop where
  classes : model.classes =
    (units.zipIdx.filter fun place =>
      ClassUnit.firstAt units place && accepts.all (· place.1)).map Prod.fst
  distinct : model.names.Nodup
  names : ∀ i, model.name? i =
    (model.classes[i]?).map ClassUnit.qualifiedName
  places : ∀ name i,
    model.classIndex? name = some i ↔ model.name? i = some name
  missing : ∀ name, model.classIndex? name = none ↔
    ∀ unit ∈ model.classes, unit.qualifiedName ≠ name
  again : ofClasses model.classes = model

theorem foldl_retain_selects (units : List ClassUnit)
    (accepts : List (ClassUnit → Bool)) :
    (accepts.foldl retain (ofClasses units)).Selects units accepts where
  classes := by
    rw [classes_foldl_retain, classes_ofClasses, List.filter_map,
      List.filter_filter]
    simp only [Function.comp_apply, Bool.and_comm]
  distinct := ClassModel.distinct _
  names _ := List.getElem?_map ..
  places := classIndex?_eq_some_iff _
  missing := classIndex?_eq_none_iff _
  again := ofClasses_classes _

/-- Collecting classes and retaining some of them, any number of times, selects
classes by first names, and so it does in two columns. -/
theorem retained_by_first_names (units : List ClassUnit)
    (accepts : List (ClassUnit → Bool)) :
    let model := accepts.foldl retain (ofClasses units)
    model.Selects units accepts ∧
      (accepts.foldl ClassColumns.retain (.collect units)).Holds model := by
  refine ⟨foldl_retain_selects units accepts, ?_⟩
  exact (ClassColumns.foldl_add units).2.foldl_retain accepts

end ClassModel

end ModuleRecovery
