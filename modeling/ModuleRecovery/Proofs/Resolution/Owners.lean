import ModuleRecovery.Resolution
import ModuleRecovery.Proofs.Lists

/-!
# Owners of a signature

Calls are resolved through an index of methods.  What the index gives for a
signature are the methods that carry it, so a match lists every class that owns
the signature and lists it once, however many of its methods carry it.
-/

namespace ModuleRecovery

/-- Some method of the class carries the signature. -/
def ClassUnit.owns (unit : ClassUnit) (signature : CallSignature) : Bool :=
  unit.methods.any (·.signature == signature)

namespace Resolution

/-- Looking up a signature gives the methods that carry it, in their order. -/
theorem getD_index (methods : List (MethodId × MethodUnit))
    (signature : CallSignature) :
    (index methods).getD signature [] =
      (methods.filter (·.2.signature == signature)).map Prod.fst := by
  induction methods with
  | nil => simp [index]
  | cons entry methods ih =>
      unfold index at ih ⊢
      rw [List.foldr_cons, Std.HashMap.getD_insert]
      by_cases heq : entry.2.signature = signature
      · subst heq
        simp [ih]
      · simp [heq, ih]

end Resolution

namespace ClassModel

/-- The positions of the classes that own a signature, each once. -/
def owners (model : ClassModel) (signature : CallSignature) : List Nat :=
  ((model.methods.filter (·.2.signature == signature)).map
    (·.1.classIndex)).eraseDups

theorem mem_methods {model : ClassModel} {id : MethodId}
    {method : MethodUnit} :
    (id, method) ∈ model.methods ↔
      ∃ unit, model.classes[id.classIndex]? = some unit ∧
        unit.methods[id.methodIndex]? = some method := by
  unfold methods methodsOf
  rw [List.mem_flatMap]
  constructor
  · rintro ⟨⟨unit, k⟩, hunit, hmethod⟩
    obtain ⟨⟨_, n⟩, hmem, heq⟩ := List.mem_map.mp hmethod
    cases heq
    exact ⟨unit, List.mem_zipIdx_iff_getElem?.mp hunit,
      List.mem_zipIdx_iff_getElem?.mp hmem⟩
  · rintro ⟨unit, hunit, hmethod⟩
    refine ⟨(unit, id.classIndex),
      List.mem_zipIdx_iff_getElem?.mpr hunit, ?_⟩
    exact List.mem_map.mpr ⟨(method, id.methodIndex),
      List.mem_zipIdx_iff_getElem?.mpr hmethod, rfl⟩

theorem mem_owners {model : ClassModel} {signature : CallSignature}
    {k : Nat} :
    k ∈ model.owners signature ↔
      ∃ unit, model.classes[k]? = some unit ∧ unit.owns signature := by
  unfold owners ClassUnit.owns
  rw [List.mem_eraseDups, List.mem_map]
  constructor
  · rintro ⟨⟨id, method⟩, hmem, rfl⟩
    obtain ⟨hmethod, hsignature⟩ := List.mem_filter.mp hmem
    obtain ⟨unit, hunit, hmethod⟩ := mem_methods.mp hmethod
    exact ⟨unit, hunit, List.any_eq_true.mpr
      ⟨method, List.mem_of_getElem? hmethod, hsignature⟩⟩
  · rintro ⟨unit, hunit, howns⟩
    obtain ⟨method, hmem, hsignature⟩ := List.any_eq_true.mp howns
    obtain ⟨n, hmethod⟩ := List.mem_iff_getElem?.mp hmem
    exact ⟨(⟨k, n⟩, method), List.mem_filter.mpr
      ⟨mem_methods.mpr ⟨unit, hunit, hmethod⟩, hsignature⟩, rfl⟩

theorem nodup_owners (model : ClassModel) (signature : CallSignature) :
    (model.owners signature).Nodup :=
  nodup_eraseDups _

theorem owners_eq (model : ClassModel) (signature : CallSignature) :
    model.owners signature =
      (((Resolution.index model.methods).getD signature []).map
        MethodId.classIndex).eraseDups := by
  rw [Resolution.getD_index, List.map_map]
  rfl

/-- A call is matched to the owners of its signature, unless there are none. -/
theorem map_snd_resolveCall? (model : ClassModel)
    (call : MethodId × CallSignature) :
    (Resolution.resolveCall? (Resolution.index model.methods) call).map
        Prod.snd =
      if model.owners call.2 = [] then none
      else some ⟨call.1, call.2, model.owners call.2⟩ := by
  unfold Resolution.resolveCall?
  rw [owners_eq]
  cases (Resolution.index model.methods).getD call.2 [] with
  | nil => simp
  | cons first more => simp [List.eraseDups_cons]

theorem found_resolve (model : ClassModel) :
    model.resolve.found =
      (Resolution.recordedCalls model.methods).filterMap fun call =>
        if model.owners call.2 = [] then none
        else some ⟨call.1, call.2, model.owners call.2⟩ := by
  change ((Resolution.recordedCalls model.methods).filterMap
    (Resolution.resolveCall? (Resolution.index model.methods))).map
      Prod.snd = _
  rw [List.map_filterMap]
  simp only [map_snd_resolveCall?]

end ClassModel

end ModuleRecovery
