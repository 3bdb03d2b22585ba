import ModuleRecovery.Proofs.Document.Signatures
import ModuleRecovery.Proofs.Json.Reading

/-!
# Documents read back

Writing classes and reading the text gives the classes, with their first names
kept and nothing else lost: every field is written under the key by which it is
read, and every call signature reads back.  This holds of the compact and of the
indented text.  Whatever text a model was read from, the model itself can be
written and read again without a warning.
-/

namespace ModuleRecovery

/-! ## Collecting classes again -/

theorem mem_of_mem_firstsNotIn {seen : List String} {units : List ClassUnit}
    {unit : ClassUnit} (h : unit ∈ firstsNotIn seen units) : unit ∈ units := by
  induction units generalizing seen with
  | nil => cases h
  | cons head tail ih =>
      unfold firstsNotIn at h
      split at h
      · exact List.mem_cons_of_mem _ (ih h)
      · rcases List.mem_cons.mp h with rfl | htail
        · exact List.mem_cons_self
        · exact List.mem_cons_of_mem _ (ih htail)

/-- Classes of distinct names, none of them seen before, are all kept. -/
theorem firstsNotIn_of_nodup {seen : List String} {units : List ClassUnit}
    (hdistinct : (units.map ClassUnit.qualifiedName).Nodup)
    (hseen : ∀ unit ∈ units, unit.qualifiedName ∉ seen) :
    firstsNotIn seen units = units ∧ repeatsNotIn seen units = [] := by
  induction units generalizing seen with
  | nil => exact ⟨rfl, rfl⟩
  | cons head tail ih =>
      rw [List.map_cons, List.nodup_cons] at hdistinct
      have hhead : head.qualifiedName ∉ seen := hseen head List.mem_cons_self
      have htail : ∀ unit ∈ tail,
          unit.qualifiedName ∉ head.qualifiedName :: seen := by
        intro unit hunit hmem
        rcases List.mem_cons.mp hmem with hname | hold
        · exact hdistinct.1 (hname ▸ List.mem_map_of_mem hunit)
        · exact hseen unit (List.mem_cons_of_mem _ hunit) hold
      obtain ⟨hfirsts, hrepeats⟩ := ih hdistinct.2 htail
      simp [firstsNotIn, repeatsNotIn, hhead, hfirsts, hrepeats]

namespace ClassModel

theorem ofClasses_classes (model : ClassModel) :
    ofClasses model.classes = model := by
  obtain ⟨classes, hdistinct⟩ := model
  have hclasses := (firstsNotIn_of_nodup hdistinct
    (fun _ _ => List.not_mem_nil)).1
  unfold ofClasses
  congr

theorem repeats_classes (model : ClassModel) : repeats model.classes = [] :=
  (firstsNotIn_of_nodup model.distinct (fun _ _ => List.not_mem_nil)).2

end ClassModel

namespace Document

open Json

/-- All calls have names that can be written. -/
def WellNamed (units : List ClassUnit) : Prop :=
  ∀ unit ∈ units, ∀ method ∈ unit.methods, ∀ call ∈ method.calls,
    call.WellNamed

/-! ## Both texts spell the document -/

theorem written_methodJson (method : MethodUnit) :
    Written (methodJson method) := by
  refine written_object ?_
  have hcalls : Written
      (.array (method.calls.toList.map (.string ·.toText))) := by
    refine written_array ?_
    intro item hitem
    obtain ⟨call, -, rfl⟩ := List.mem_map.mp hitem
    exact written_string _
  simp [written_string, written_ofNat, hcalls]

theorem written_classJson (unit : ClassUnit) : Written (classJson unit) := by
  refine written_object ?_
  have hmethods : Written (.array (unit.methods.map methodJson)) := by
    refine written_array ?_
    intro item hitem
    obtain ⟨method, -, rfl⟩ := List.mem_map.mp hitem
    exact written_methodJson method
  simp [written_string, written_ofNat, hmethods]

theorem written_toJson (units : List ClassUnit) : Written (toJson units) := by
  refine written_object ?_
  have hclasses : Written (.array (units.map classJson)) := by
    refine written_array ?_
    intro item hitem
    obtain ⟨unit, -, rfl⟩ := List.mem_map.mp hitem
    exact written_classJson unit
  simp [hclasses]

/-! ## Every part is accepted -/

theorem accepts_readCount (count : UInt32) :
    readCount.Accepts (.ofNat count.toNat) count := by
  intro space text rest hspace htext hrest
  have hbound : count.toNat ≤ maxCount := Nat.le_of_lt_succ count.toNat_lt
  have hfits : count.toNat ≤ Literal.maxSignificand :=
    hbound.trans (by decide)
  cases htext
  refine Reader.run_scan_of_ok ?_
  rw [readNatural_write hbound hfits hspace hrest.endsNumber]
  simp [Except.map]

theorem accepts_readCalls {calls : CallSet}
    (h : ∀ call ∈ calls, call.WellNamed) :
    readCalls.Accepts (.array (calls.toList.map (.string ·.toText)))
      calls := by
  intro space text rest hspace htext hrest
  have hentries : (readList (.scan readText) : Reader Warning _).Accepts
      (.array (calls.toList.map (.string ·.toText)))
      (calls.toList.map CallSignature.toText) :=
    accepts_readList (List.forall₂_map_left_iff.mpr
      (List.forall₂_map_right_iff.mpr
        (List.forall₂_same.mpr fun _ _ => accepts_readText _)))
  unfold readCalls
  rw [Reader.run_bind_of_ok (hentries space text rest hspace htext hrest),
    callWarnings_map_toText h, callsOf_map_toText h]
  rfl

theorem accepts_readMethod {method : MethodUnit}
    (h : ∀ call ∈ method.calls, call.WellNamed) :
    readMethod.Accepts (methodJson method) method := by
  refine accepts_readRecord (show Filled methodFields {} _
    ⟨some method.name, some method.paramCount, some method.lineCount,
      some method.calls⟩ from ?_) rfl
  refine .member rfl rfl ((accepts_readText method.name).map _) ?_
  refine .member rfl rfl ((accepts_readCount method.paramCount).map _) ?_
  refine .member rfl rfl ((accepts_readCount method.lineCount).map _) ?_
  refine .member rfl rfl ((accepts_readCalls h).map _) ?_
  exact .done _

theorem accepts_readClass {unit : ClassUnit}
    (h : ∀ method ∈ unit.methods, ∀ call ∈ method.calls, call.WellNamed) :
    readClass.Accepts (classJson unit) unit := by
  have hmethods : (readList readMethod).Accepts
      (.array (unit.methods.map methodJson)) unit.methods :=
    accepts_readList (List.forall₂_map_left_iff.mpr
      (List.forall₂_same.mpr fun method hmethod =>
        accepts_readMethod (h method hmethod)))
  refine accepts_readRecord (show Filled classFields {} _
    ⟨some unit.name, some unit.package, some unit.attributeCount,
      some unit.methods⟩ from ?_) rfl
  refine .member rfl rfl ((accepts_readText unit.name).map _) ?_
  refine .member rfl rfl ((accepts_readText unit.package).map _) ?_
  refine .member rfl rfl ((accepts_readCount unit.attributeCount).map _) ?_
  refine .member rfl rfl (hmethods.map _) ?_
  exact .done _

/-- Any text that spells the document of some classes gives the classes. -/
theorem read_of_spells {units : List ClassUnit} (h : WellNamed units)
    {text : List Char} (htext : Spells (toJson units) text) :
    read (String.ofList text) = ([], .ok units) := by
  have hclasses : (readList readClass).Accepts
      (.array (units.map classJson)) units :=
    accepts_readList (List.forall₂_map_left_iff.mpr
      (List.forall₂_same.mpr fun unit hunit =>
        accepts_readClass (h unit hunit)))
  have hfilled : Filled documentFields none
      [("classes", .array (units.map classJson))] (some units) :=
    .member rfl rfl (hclasses.map some) (.done _)
  unfold read
  refine wholeText_of_accepts (accepts_readRecord hfilled ?_) htext
  rfl

theorem readModel_of_spells {units : List ClassUnit} (h : WellNamed units)
    {text : List Char} (htext : Spells (toJson units) text) :
    readModel (String.ofList text) =
      ((ClassModel.repeats units).map .repeatedClass,
        .ok (.ofClasses units)) := by
  unfold readModel
  rw [read_of_spells h htext]
  rfl

/-! ## What has been read can be written -/

theorem ensures_readCalls :
    readCalls.Ensures fun calls => ∀ call ∈ calls, call.WellNamed := by
  refine (Reader.ensures_true _).bind fun entries _ => ?_
  refine (Reader.ensures_true _).bind fun _ _ => ?_
  exact Reader.ensures_pure fun _ => wellNamed_of_mem_callsOf

theorem ensures_readMethod :
    readMethod.Ensures fun method => ∀ call ∈ method.calls, call.WellNamed := by
  refine ensures_readRecord (fun draft : MethodDraft =>
    ∀ calls ∈ draft.calls, ∀ call ∈ calls, call.WellNamed) ?_ ?_ ?_
  · simp
  · intro field hfield draft hdraft
    simp only [methodFields, List.mem_cons, List.not_mem_nil, or_false]
      at hfield
    -- the calls are the only field that touches what is kept
    rcases hfield with rfl | rfl | rfl | rfl
    · exact (Reader.ensures_true _).bind fun _ _ => Reader.ensures_pure hdraft
    · exact (Reader.ensures_true _).bind fun _ _ => Reader.ensures_pure hdraft
    · exact (Reader.ensures_true _).bind fun _ _ => Reader.ensures_pure hdraft
    · refine ensures_readCalls.bind fun calls hcalls => ?_
      exact Reader.ensures_pure (by simpa using hcalls)
  · intro draft method hdraft hmethod
    obtain ⟨name, -, rfl⟩ := Option.map_eq_some_iff.mp hmethod
    cases hcalls : draft.calls with
    | none => simp
    | some calls => simpa [hcalls] using hdraft calls hcalls

theorem ensures_readClass :
    readClass.Ensures fun unit =>
      ∀ method ∈ unit.methods, ∀ call ∈ method.calls, call.WellNamed := by
  refine ensures_readRecord (fun draft : ClassDraft =>
    ∀ methods ∈ draft.methods, ∀ method ∈ methods, ∀ call ∈ method.calls,
      call.WellNamed) ?_ ?_ ?_
  · simp
  · intro field hfield draft hdraft
    simp only [classFields, List.mem_cons, List.not_mem_nil, or_false]
      at hfield
    rcases hfield with rfl | rfl | rfl | rfl
    · exact (Reader.ensures_true _).bind fun _ _ => Reader.ensures_pure hdraft
    · exact (Reader.ensures_true _).bind fun _ _ => Reader.ensures_pure hdraft
    · exact (Reader.ensures_true _).bind fun _ _ => Reader.ensures_pure hdraft
    · refine (ensures_readList ensures_readMethod).bind
        fun methods hmethods => ?_
      exact Reader.ensures_pure (by simpa using hmethods)
  · intro draft unit hdraft hunit
    obtain ⟨name, -, rfl⟩ := Option.map_eq_some_iff.mp hunit
    cases hmethods : draft.methods with
    | none => simp
    | some methods => simpa [hmethods] using hdraft methods hmethods

theorem wellNamed_of_read {text : String} {warnings : List Warning}
    {units : List ClassUnit} (h : read text = (warnings, .ok units)) :
    WellNamed units := by
  refine good_of_wholeText ?_ h
  refine ensures_readRecord (fun draft : Option (List ClassUnit) =>
    ∀ units ∈ draft, WellNamed units) ?_ ?_ ?_
  · simp
  · intro field hfield draft _
    obtain rfl := List.mem_singleton.mp hfield
    refine (ensures_readList ensures_readClass).bind fun units hunits => ?_
    exact Reader.ensures_pure (by simpa [WellNamed] using hunits)
  · intro draft units hdraft hunits
    cases hunits
    cases draft with
    | none => simp [WellNamed]
    | some units => exact hdraft units rfl

theorem wellNamed_classes_of_readModel {text : String}
    {warnings : List Warning} {model : ClassModel}
    (h : readModel text = (warnings, .ok model)) : WellNamed model.classes := by
  unfold readModel at h
  split at h
  · cases h
  · rename_i hread
    cases h
    intro unit hunit
    exact wellNamed_of_read hread unit (mem_of_mem_firstsNotIn hunit)

/-! ## The round trip -/

/-- The texts of a document: compact, and indented. -/
def texts (units : List ClassUnit) : List String :=
  [write units, (toJson units).indented]

theorem readModel_of_mem_texts {units : List ClassUnit} (h : WellNamed units)
    {text : String} (htext : text ∈ texts units) :
    readModel text =
      ((ClassModel.repeats units).map .repeatedClass,
        .ok (.ofClasses units)) := by
  have hwritten := written_toJson units
  simp only [texts, List.mem_cons, List.not_mem_nil, or_false] at htext
  rcases htext with rfl | rfl
  · exact readModel_of_spells h hwritten.compact
  · exact readModel_of_spells h (hwritten.indented 0)

/-- Classes whose calls have names that can be written are read back from both
texts of their document.  No call is left out: the only warnings are about
classes of a name that an earlier class has.  A model that was read from any text
is read back from its own texts, without a warning.  In the texts exactly quotes,
backslashes and control characters are escaped. -/
theorem readModel_texts :
    (∀ units, WellNamed units → ∀ text ∈ texts units,
      readModel text =
        ((ClassModel.repeats units).map .repeatedClass,
          .ok (.ofClasses units))) ∧
    (∀ text warnings model, readModel text = (warnings, .ok model) →
      ∀ again ∈ texts model.classes, readModel again = ([], .ok model)) ∧
    ∀ c, escaped c = [c] ↔ c ≠ '"' ∧ c ≠ '\\' ∧ 0x20 ≤ c.toNat := by
  refine ⟨?_, ?_, escaped_eq_singleton_iff⟩
  · intro units hunits text htext
    exact readModel_of_mem_texts hunits htext
  · intro text warnings model hread again hagain
    rw [readModel_of_mem_texts (wellNamed_classes_of_readModel hread) hagain,
      ClassModel.repeats_classes, ClassModel.ofClasses_classes]
    rfl

/-- Names with a quote, a backslash, a line break and a letter outside of ASCII,
and a class that is given twice: the second one is left out, and what is kept
reads back without a warning. -/
theorem readModel_texts_repeated_class :
    let calls : CallSet := (∅ : CallSet).insert ⟨"größe", 2⟩
    let units : List ClassUnit :=
      [⟨"A\"\n", "p\\", 3, [⟨"m", 0, 7, calls⟩]⟩, ⟨"B", "", 0, []⟩,
        ⟨"A\"\n", "p\\", 0, []⟩]
    WellNamed units ∧
    readModel (write units) =
      ([.repeatedClass "p\\.A\"\n"], .ok (.ofClasses units)) ∧
    readModel (write (ClassModel.ofClasses units).classes) =
      ([], .ok (.ofClasses units)) := by
  intro calls units
  have hcall : ∀ call ∈ calls, call.WellNamed := by
    intro call hcall
    have heq : ⟨"größe", 2⟩ = call := by
      simpa [calls, Std.ExtTreeSet.mem_insert] using hcall
    have hchars : "größe".toList = ['g', 'r', 'ö', 'ß', 'e'] := rfl
    rw [← heq]
    refine ⟨by simp, ?_⟩
    rw [hchars]
    simp [Text.isBlank]
  have hunits : WellNamed units := by
    simpa [WellNamed, units] using hcall
  have hrepeats : ClassModel.repeats units = ["p\\.A\"\n"] := by decide
  have hread := readModel_texts.1 units hunits (write units)
    List.mem_cons_self
  rw [hrepeats] at hread
  exact ⟨hunits, hread, readModel_texts.2.1 _ _ _ hread _ List.mem_cons_self⟩

end Document

end ModuleRecovery
