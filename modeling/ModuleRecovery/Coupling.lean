import ModuleRecovery.Resolution
import ModuleRecovery.Score
import Std.Data.ExtTreeMap

/-!
# Coupling between classes

Two classes are coupled by the calls between them, in either direction.  The
calls are counted exactly, in 64 bits: a sum that does not fit is refused.  The
score of a pair is its share of all counted calls.
-/

namespace ModuleRecovery

/-- Two class names without regard to their order: the smaller stands first. -/
structure ClassPair where
  first : String
  second : String
  ordered : ¬ second < first
  deriving DecidableEq

namespace ClassPair

def of (a b : String) : ClassPair :=
  if h : b < a then ⟨b, a, String.lt_asymm h⟩ else ⟨a, b, h⟩

def isReflexive (pair : ClassPair) : Bool :=
  pair.first == pair.second

/-- Pairs are ordered by the first name, then by the second. -/
instance : Ord ClassPair where
  compare := compareLex (compareOn first) (compareOn second)

theorem compare_eq :
    (compare : ClassPair → ClassPair → Ordering) =
      compareLex (compareOn first) (compareOn second) :=
  rfl

instance : Std.TransOrd ClassPair := by
  unfold Std.TransOrd
  rw [compare_eq]
  infer_instance

instance : Std.LawfulEqOrd ClassPair where
  eq_of_compare := by
    intro a b h
    rw [compare_eq, compareLex_eq_eq] at h
    have hfirst : a.first = b.first := Std.LawfulEqOrd.eq_of_compare h.1
    have hsecond : a.second = b.second := Std.LawfulEqOrd.eq_of_compare h.2
    cases a
    cases b
    simp_all

/-- The written form `first-second`. -/
def toText (pair : ClassPair) : String :=
  pair.first ++ "-" ++ pair.second

theorem of_comm (a b : String) : of a b = of b a := by
  unfold of
  by_cases hab : a < b
  · simp [hab, String.lt_asymm hab]
  · by_cases hba : b < a
    · simp [hab, hba]
    · obtain rfl : a = b := String.le_antisymm hba hab
      rfl

theorem of_eq_of_iff {a b c d : String} :
    of a b = of c d ↔ a = c ∧ b = d ∨ a = d ∧ b = c := by
  constructor
  · intro h
    unfold of at h
    split at h <;> split at h <;> cases h <;> simp
  · rintro (⟨rfl, rfl⟩ | ⟨rfl, rfl⟩)
    · rfl
    · exact of_comm a b

theorem of_first_second (pair : ClassPair) :
    of pair.first pair.second = pair := by
  unfold of
  rw [dif_neg pair.ordered]

theorem isReflexive_of (a b : String) : (of a b).isReflexive = (a == b) := by
  unfold of isReflexive
  split
  · exact Bool.beq_comm
  · rfl

end ClassPair

/-- The calls counted for each pair of classes. -/
abbrev PairCounts : Type :=
  Std.ExtTreeMap ClassPair Nat

abbrev PairScores (α : Type) : Type :=
  Std.ExtTreeMap ClassPair α

namespace PairCounts

def sum (counts : PairCounts) : Nat :=
  counts.toList.foldr (fun entry sum => entry.2 + sum) 0

/-- Only pairs of two different classes are counted, and no count is zero. -/
def Proper (counts : PairCounts) : Prop :=
  ∀ (pair : ClassPair) (count : Nat), counts[pair]? = some count →
    pair.isReflexive = false ∧ 0 < count

theorem proper_empty : Proper ∅ := by
  intro pair count h
  simp at h

theorem Proper.insert {counts : PairCounts} (hproper : Proper counts)
    {pair : ClassPair} {count : Nat} (hpair : pair.isReflexive = false)
    (hcount : 0 < count) : Proper (counts.insert pair count) := by
  intro other n h
  rw [Std.ExtTreeMap.getElem?_insert] at h
  split at h
  · rename_i heq
    have hother : pair = other := Std.LawfulEqOrd.eq_of_compare heq
    subst hother
    cases h
    exact ⟨hpair, hcount⟩
  · exact hproper other n h

end PairCounts

/-- The counted calls between classes and their sum. -/
structure Coupling where
  raw : PairCounts
  total : Nat
  proper : raw.Proper
  total_eq : total = raw.sum
  total_le : total ≤ maxCount

structure RankedPair (α : Type) where
  pair : ClassPair
  raw : Nat
  score : α

namespace Coupling

/-- The sum of two counts, if it fits. -/
def addCounts? (m n : Nat) : Option Nat :=
  if m + n ≤ maxCount then some (m + n) else none

/-- Adds to the count of a pair, if the sum fits. -/
def increase? (counts : PairCounts) (pair : ClassPair) (count : Nat) :
    Option PairCounts :=
  (addCounts? (counts.getD pair 0) count).map (counts.insert pair)

/-- Adds the count of a pair.  A pair of a class with itself and a count of zero
add nothing. -/
def addPair? (raw : PairCounts) (entry : ClassPair × Nat) :
    Option PairCounts :=
  if entry.1.isReflexive || entry.2 == 0 then some raw
  else increase? raw entry.1 entry.2

/-- The sum of counts is exact as long as it fits. -/
theorem foldlM_addCounts?_eq (counts : List Nat) (start : Nat)
    (hstart : start ≤ maxCount) :
    counts.foldlM addCounts? start =
      if start + counts.foldr (· + ·) 0 ≤ maxCount then
        some (start + counts.foldr (· + ·) 0)
      else none := by
  induction counts generalizing start with
  | nil => simp [hstart]
  | cons count counts ih =>
      rw [List.foldlM_cons, List.foldr_cons, ← Nat.add_assoc]
      unfold addCounts?
      by_cases hfits : start + count ≤ maxCount
      · simp only [hfits, ↓reduceIte]
        exact ih (start + count) hfits
      · have hsum : ¬ start + count + counts.foldr (· + ·) 0 ≤ maxCount := by
          omega
        simp [hfits, hsum]

theorem proper_addPair? {raw next : PairCounts} {entry : ClassPair × Nat}
    (hraw : raw.Proper) (hnext : addPair? raw entry = some next) :
    next.Proper := by
  unfold addPair? at hnext
  split at hnext
  · cases hnext
    exact hraw
  · rename_i hcounted
    simp only [Bool.or_eq_true, beq_iff_eq, not_or, Bool.not_eq_true]
      at hcounted
    unfold increase? addCounts? at hnext
    split at hnext
    · cases hnext
      exact hraw.insert hcounted.1 (by omega)
    · cases hnext

theorem proper_foldlM_addPair? {counts : List (ClassPair × Nat)}
    {start raw : PairCounts} (hstart : start.Proper)
    (hraw : counts.foldlM addPair? start = some raw) : raw.Proper := by
  induction counts generalizing start with
  | nil =>
      cases hraw
      exact hstart
  | cons entry counts ih =>
      rw [List.foldlM_cons] at hraw
      obtain ⟨next, hnext, hrest⟩ := Option.bind_eq_some_iff.mp hraw
      exact ih (proper_addPair? hstart hnext) hrest

/-- The coupling with the given counts, of which the pairs with a class itself
and the zeros have been left out; `none` when their sum does not fit. -/
def ofProper? (raw : PairCounts) (proper : raw.Proper) : Option Coupling :=
  match htotal : (raw.toList.map Prod.snd).foldlM addCounts? 0 with
  | none => none
  | some total =>
    have hfits := foldlM_addCounts?_eq (raw.toList.map Prod.snd) 0
      (Nat.zero_le _)
    some
      { raw, total, proper
        total_eq := by
          rw [htotal] at hfits
          split at hfits
          · simpa [PairCounts.sum, List.foldr_map] using hfits
          · cases hfits
        total_le := by
          rw [htotal] at hfits
          split at hfits
          · cases hfits
            assumption
          · cases hfits }

/-- The coupling with the given counts, in which a pair may occur several times;
`none` when a sum does not fit. -/
def ofCounts? (counts : List (ClassPair × Nat)) : Option Coupling :=
  match hraw : counts.foldlM addPair? ∅ with
  | none => none
  | some raw =>
    ofProper? raw (proper_foldlM_addPair? PairCounts.proper_empty hraw)

/-- The two classes of each resolved call and each other class that owns its
signature. -/
def pairsOf (model : ClassModel) (found : List SignatureMatch) :
    List ClassPair :=
  let names := model.names.toArray
  found.flatMap fun entry =>
    (entry.owners.filter (· != entry.caller.classIndex)).filterMap
      fun owner => do
        let caller ← names[entry.caller.classIndex]?
        let owner ← names[owner]?
        return ClassPair.of caller owner

/-- How often each pair is listed. -/
def tally? (pairs : List ClassPair) : Option PairCounts :=
  pairs.foldlM (fun counts pair => increase? counts pair 1) ∅

def ofResolution? (model : ClassModel) (resolution : Resolution) :
    Option Coupling := do
  let counts ← tally? (pairsOf model resolution.found)
  ofCounts? counts.toList

/-- The number of calls between two classes. -/
def rawBetween (coupling : Coupling) (a b : String) : Nat :=
  if a = b then 0 else coupling.raw.getD (.of a b) 0

section Scores

variable {α : Type} [Score α]

def share (coupling : Coupling) (count : Nat) : α :=
  Score.div (Score.ofNat count) (Score.ofNat coupling.total)

/-- The scores of all coupled pairs; without any call there are none. -/
def normalized (coupling : Coupling) : PairScores α :=
  if 0 < coupling.total then coupling.raw.map fun _ => coupling.share else ∅

/-- The score of two classes among the given ones; classes without calls between
them score zero. -/
def scoreIn (scores : PairScores α) (a b : String) : α :=
  if a = b then Score.zero else scores.getD (.of a b) Score.zero

def between (coupling : Coupling) (a b : String) : α :=
  scoreIn coupling.normalized a b

/-- The coupled pairs with their scores, in the order of pairs. -/
def pairs (coupling : Coupling) : List (RankedPair α) :=
  coupling.normalized.toList.map fun (pair, score) =>
    ⟨pair, coupling.raw.getD pair 0, score⟩

/-- The coupled pairs by falling score; pairs of one score in their order. -/
def ranked (coupling : Coupling) : List (RankedPair α) :=
  coupling.pairs.mergeSort fun p q => Score.rank q.score p.score

/-- The scores of all pairs of the given names, by rows. -/
def table (coupling : Coupling) (names : List String) : List (List α) :=
  let scores := coupling.normalized
  names.map fun a => names.map fun b => scoreIn scores a b

end Scores

/-- The names sorted, each once. -/
def sortedNames (names : List String) : List String :=
  (names.mergeSort fun a b => decide (a ≤ b)).eraseDups

end Coupling

end ModuleRecovery
