import ModuleRecovery.ClassModel.Document
import ModuleRecovery.Proofs.Json.Scalars

/-!
# Written call signatures

The written form of a signature reads back as the signature if its name can be
told from what follows it: it is not empty and holds neither blanks nor colons.
Every signature that is read from a text has such a name, so what has been read
once can be written and read again.
-/

namespace ModuleRecovery

open Text

namespace Text

theorem isBlank_of_isAsciiDigit {c : Char} (h : isAsciiDigit c = true) :
    isBlank c = false := by
  have hcode : 48 ≤ c.toNat ∧ c.toNat ≤ 57 := by
    simpa [isAsciiDigit, Char.le_def, UInt32.le_iff_toNat_le] using h
  simp [isBlank]
  omega

theorem isDecimalDigit_of_isAsciiDigit {c : Char}
    (h : isAsciiDigit c = true) : isDecimalDigit c = true := by
  have hcode : 48 ≤ c.toNat ∧ c.toNat ≤ 57 := by
    simpa [isAsciiDigit, Char.le_def, UInt32.le_iff_toNat_le] using h
  refine List.any_eq_true.mpr ⟨0x30, by simp [digitZeros], ?_⟩
  simpa using hcode

theorem dropWhile_isBlank_of_head? {text : List Char}
    (h : ∀ c ∈ text.head?, isBlank c = false) :
    text.dropWhile isBlank = text := by
  cases text with
  | nil => rfl
  | cons c text => simp [h c rfl]

/-- A text with no blank at either end is not trimmed. -/
theorem trim_eq_self {text : List Char}
    (hfirst : ∀ c ∈ text.head?, isBlank c = false)
    (hlast : ∀ c ∈ text.getLast?, isBlank c = false) : trim text = text := by
  unfold trim trimEnd
  rw [dropWhile_isBlank_of_head? hfirst, dropWhile_isBlank_of_head?]
  · exact List.reverse_reverse text
  · rwa [List.head?_reverse]

end Text

namespace CallSignature

/-- The name is not empty and holds neither blanks nor colons. -/
def WellNamed (signature : CallSignature) : Prop :=
  signature.name ≠ "" ∧
    ∀ c ∈ signature.name.toList, isBlank c = false ∧ c ≠ ':'

theorem readArity_write (arity : UInt32) :
    readArity (Numeral.write arity.toNat) = .ok arity := by
  have hbound : arity.toNat ≤ maxArity :=
    Nat.le_of_lt_succ arity.toNat_lt
  unfold readArity
  rw [Numeral.read_write hbound]
  simp

theorem readTrimmed_of_name {name : List Char} (hname : name ≠ [])
    (hchars : ∀ c ∈ name, isNameChar c = true) (arity : UInt32) :
    readTrimmed (name ++ ':' :: Numeral.write arity.toNat) =
      .ok ⟨String.ofList name, arity⟩ := by
  have hcolon : isNameChar ':' = false := by decide
  have hblank : isBlank ':' = false := by decide
  have hdigits : (Numeral.write arity.toNat).dropWhile isBlank =
      Numeral.write arity.toNat := by
    refine dropWhile_isBlank_of_head? fun c hc => ?_
    exact isBlank_of_isAsciiDigit
      (isAsciiDigit_of_mem_write (List.mem_of_mem_head? hc))
  have hall : (Numeral.write arity.toNat).all isDecimalDigit = true :=
    List.all_eq_true.mpr fun c hc =>
      isDecimalDigit_of_isAsciiDigit (isAsciiDigit_of_mem_write hc)
  unfold readTrimmed
  rw [List.takeWhile_append_of_pos hchars,
    List.dropWhile_append_of_pos hchars]
  simp [hcolon, hblank, hdigits, hall, hname, Numeral.write_ne_nil,
    readArity_write]

theorem toList_toText (signature : CallSignature) :
    signature.toText.toList =
      signature.name.toList ++ ':' :: Numeral.write signature.arity.toNat := by
  simp [toText]

theorem read_toText {signature : CallSignature} (h : signature.WellNamed) :
    read signature.toText = .ok signature := by
  have hname : signature.name.toList ≠ [] := by
    simpa using h.1
  have hchars : ∀ c ∈ signature.name.toList, isNameChar c = true := by
    intro c hc
    simp [isNameChar, h.2 c hc]
  have htrim : trim signature.toText.toList = signature.toText.toList := by
    rw [toList_toText]
    -- the name keeps off trimming at the front, and the digits at the end
    refine trim_eq_self ?_ ?_
    · intro c hc
      rw [List.head?_append_of_ne_nil _ hname] at hc
      exact (h.2 c (List.mem_of_mem_head? hc)).1
    · intro c hc
      rw [List.getLast?_append_of_ne_nil _ (by simp),
        List.getLast?_cons_of_ne_nil (Numeral.write_ne_nil _)] at hc
      exact isBlank_of_isAsciiDigit
        (isAsciiDigit_of_mem_write (List.mem_of_mem_getLast? hc))
  unfold read
  rw [htrim, toList_toText, readTrimmed_of_name hname hchars]
  simp

/-- A signature that was read has a name that can be written. -/
theorem wellNamed_of_read {text : String} {signature : CallSignature}
    (h : read text = .ok signature) : signature.WellNamed := by
  unfold read readTrimmed at h
  dsimp only at h
  split at h
  · split at h
    · cases h
    · rename_i hform
      simp only [Bool.or_eq_true, not_or, Bool.not_eq_true] at hform
      split at h
      · cases h
        refine ⟨?_, ?_⟩
        · intro hempty
          have hnil := congrArg String.toList hempty
          rw [String.toList_ofList] at hnil
          simp [hnil] at hform
        · intro c hc
          rw [String.toList_ofList] at hc
          have hchar := List.all_eq_true.mp List.all_takeWhile c hc
          simpa [isNameChar] using hchar
      · cases h
  · cases h

end CallSignature

namespace Document

theorem callsOf_map_toText {calls : CallSet}
    (h : ∀ call ∈ calls, call.WellNamed) :
    callsOf (calls.toList.map CallSignature.toText) = calls := by
  have hread : (calls.toList.map CallSignature.toText).filterMap
      (fun entry => (CallSignature.read entry).toOption) = calls.toList := by
    rw [List.filterMap_map]
    conv_rhs => rw [← List.filterMap_some (l := calls.toList)]
    refine List.filterMap_congr fun call hcall => ?_
    have hcall := h call (Std.ExtTreeSet.mem_toList.mp hcall)
    simp [CallSignature.read_toText hcall, Except.toOption]
  unfold callsOf
  rw [hread]
  ext call
  simp [Std.ExtTreeSet.mem_ofList]

theorem callWarnings_map_toText {calls : CallSet}
    (h : ∀ call ∈ calls, call.WellNamed) :
    callWarnings (calls.toList.map CallSignature.toText) = [] := by
  unfold callWarnings
  rw [List.filterMap_eq_nil_iff]
  intro entry hentry
  obtain ⟨call, hcall, rfl⟩ := List.mem_map.mp hentry
  rw [CallSignature.read_toText (h call (Std.ExtTreeSet.mem_toList.mp hcall))]

theorem wellNamed_of_mem_callsOf {entries : List String} {call : CallSignature}
    (h : call ∈ callsOf entries) : call.WellNamed := by
  have hmem : call ∈ entries.filterMap fun entry =>
      (CallSignature.read entry).toOption := by
    simpa [callsOf, Std.ExtTreeSet.mem_ofList] using h
  obtain ⟨entry, -, hentry⟩ := List.mem_filterMap.mp hmem
  cases hread : CallSignature.read entry with
  | error fault =>
      rw [hread] at hentry
      cases hentry
  | ok signature =>
      rw [hread] at hentry
      cases hentry
      exact CallSignature.wellNamed_of_read hread

end Document

end ModuleRecovery
