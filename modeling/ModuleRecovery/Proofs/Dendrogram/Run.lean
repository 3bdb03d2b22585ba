import ModuleRecovery.Dendrogram
import Mathlib.Data.List.Nodup
import Mathlib.Tactic

/-!
# Levels of a clustering run

A run is told by its first level and by what one step makes of a level.  The
first half of this module says what a step can do; the second half says that
level `k + 1` is the step of level `k`, so that whatever the first level has
and every step preserves holds of all levels.
-/

namespace ModuleRecovery

variable {ι α : Type}

/-! ## One step -/

/-- What is left of a level when the two chosen clusters are taken out. -/
def Choice.others (choice : Choice ι α) (level : Level ι α) : Level ι α :=
  (level.eraseIdx choice.rightPosition).eraseIdx choice.leftPosition

theorem Choice.FitsLevel.perm {choice : Choice ι α} {level : Level ι α}
    (hfits : choice.FitsLevel level) :
    level.Perm (choice.left :: choice.right :: choice.others level) := by
  obtain ⟨hright, hrightEq⟩ := List.getElem?_eq_some_iff.mp hfits.right
  have hleft :
      (level.eraseIdx choice.rightPosition)[choice.leftPosition]? =
        some choice.left := by
    rw [List.getElem?_eraseIdx_of_lt hfits.ordered]
    exact hfits.left
  obtain ⟨hleftBound, hleftEq⟩ := List.getElem?_eq_some_iff.mp hleft
  have houter :
      (choice.right :: level.eraseIdx choice.rightPosition).Perm level := by
    rw [← hrightEq]
    exact List.getElem_cons_eraseIdx_perm hright
  have hinner :
      (choice.left :: choice.others level).Perm
        (level.eraseIdx choice.rightPosition) := by
    rw [← hleftEq]
    exact List.getElem_cons_eraseIdx_perm hleftBound
  calc
    level.Perm (choice.right :: level.eraseIdx choice.rightPosition) :=
      houter.symm
    _ |>.Perm (choice.right :: choice.left :: choice.others level) :=
      hinner.symm.cons _
    _ |>.Perm (choice.left :: choice.right :: choice.others level) :=
      List.Perm.swap _ _ _

/-- Whatever holds between any two clusters of a level holds after a merge too, if
it holds of the merged cluster as soon as it holds of its parts. -/
theorem Choice.FitsLevel.pairwise_merge {choice : Choice ι α}
    {level : Level ι α} (hfits : choice.FitsLevel level)
    {R : Cluster ι α → Cluster ι α → Prop} {merged : Cluster ι α}
    (hsymm : ∀ {a b}, R a b → R b a)
    (hmerged : ∀ a, R a choice.left → R a choice.right → R a merged)
    (h : level.Pairwise R) :
    (choice.others level ++ [merged]).Pairwise R := by
  -- the relation is symmetric, so the chosen clusters may be moved to the front
  have hfront := (hfits.perm.pairwise_iff hsymm).mp h
  obtain ⟨hleft, hrest⟩ := List.pairwise_cons.mp hfront
  obtain ⟨hright, hothers⟩ := List.pairwise_cons.mp hrest
  refine List.pairwise_append.mpr ⟨hothers, List.pairwise_singleton _ _, ?_⟩
  intro a ha b hb
  obtain rfl := List.mem_singleton.mp hb
  exact hmerged a (hsymm (hleft a (List.mem_cons_of_mem _ ha)))
    (hsymm (hright a ha))

theorem Choice.FitsLevel.mem_of_mem_others {choice : Choice ι α}
    {level : Level ι α} (hfits : choice.FitsLevel level)
    {cluster : Cluster ι α} (h : cluster ∈ choice.others level) :
    cluster ∈ level :=
  hfits.perm.mem_iff.mpr (List.mem_cons_of_mem _ (List.mem_cons_of_mem _ h))

theorem Level.coupling_of_mem_choices [Score α] {scores : ι → ι → α}
    {level : Level ι α} {choice : Choice ι α}
    (h : choice ∈ level.choices scores) :
    choice.coupling = choice.left.average scores choice.right := by
  obtain ⟨⟨⟨left, i⟩, ⟨right, j⟩⟩, _, rfl⟩ := List.mem_map.mp h
  rfl

theorem Level.step?_eq_none_iff [Score α] (scores : ι → ι → α) (id : Nat)
    (level : Level ι α) :
    level.step? scores id = none ↔ level.length ≤ 1 := by
  unfold Level.step? Level.strongest?
  rw [Option.map_eq_none_iff]
  cases hchoices : level.choices scores with
  | nil =>
      simp only [Level.choices, List.map_eq_nil_iff, orderedPairs_eq_nil_iff,
        List.length_zipIdx] at hchoices
      simpa using hchoices
  | cons first more =>
      have hne : level.choices scores ≠ [] := by simp [hchoices]
      simp only [Level.choices, ne_eq, List.map_eq_nil_iff,
        orderedPairs_eq_nil_iff, List.length_zipIdx] at hne
      simpa using hne

/-- Everything a step can do: the strongest choice of the level is made, its two
clusters leave their places, and their merge is put behind the others. -/
theorem Level.step?_cases [Score α] {scores : ι → ι → α} {id : Nat}
    {level next : Level ι α} (h : level.step? scores id = some next) :
    ∃ choice, level.strongest? scores = some choice ∧
      choice.FitsLevel level ∧
      choice.coupling = choice.left.average scores choice.right ∧
      next = choice.others level ++
        [.merge id choice.left choice.right choice.coupling] := by
  obtain ⟨choice, hchoice, rfl⟩ := Option.map_eq_some_iff.mp h
  exact ⟨choice, hchoice, Level.fitsLevel_of_strongest? hchoice,
    Level.coupling_of_mem_choices (Level.mem_choices_of_strongest? hchoice),
    rfl⟩

/-! ## All levels -/

theorem Level.getElem?_grow_succ [Score α] (scores : ι → ι → α) (k id : Nat)
    (level : Level ι α) :
    (level :: level.grow scores id)[k + 1]? =
      ((level :: level.grow scores id)[k]?).bind
        (Level.step? scores (id + k)) := by
  induction k generalizing id level with
  | zero =>
      rw [Level.grow]
      cases hstep : level.step? scores id with
      | none => simp [hstep]
      | some next => simp [hstep]
  | succ k ih =>
      rw [Level.grow]
      cases hstep : level.step? scores id with
      | none => simp
      | some next =>
          have hrest := ih (id + 1) next
          rw [show id + 1 + k = id + (k + 1) by omega] at hrest
          simpa using hrest

namespace Dendrogram

theorem levels_ofItems [Score α] (scores : ι → ι → α) {items : List ι}
    (hitems : items ≠ []) :
    (ofItems scores items).levels =
      Level.ofItems items ::
        (Level.ofItems items).grow scores items.length := by
  cases items with
  | nil => exact (hitems rfl).elim
  | cons item items => rfl

theorem getElem?_levels_zero [Score α] (scores : ι → ι → α) {items : List ι}
    (hitems : items ≠ []) :
    (ofItems scores items).levels[0]? = some (Level.ofItems items) := by
  rw [levels_ofItems scores hitems]
  rfl

theorem eq_ofItems_of_getElem?_levels_zero [Score α] {scores : ι → ι → α}
    {items : List ι} {level : Level ι α}
    (hlevel : (ofItems scores items).levels[0]? = some level) :
    level = Level.ofItems items := by
  by_cases hitems : items = []
  · subst hitems
    simp [ofItems] at hlevel
  · rw [getElem?_levels_zero scores hitems] at hlevel
    exact (Option.some.inj hlevel).symm

theorem getElem?_levels_succ [Score α] (scores : ι → ι → α)
    (items : List ι) (k : Nat) :
    (ofItems scores items).levels[k + 1]? =
      ((ofItems scores items).levels[k]?).bind
        (Level.step? scores (items.length + k)) := by
  by_cases hitems : items = []
  · subst hitems
    simp [ofItems]
  · rw [levels_ofItems scores hitems]
    exact Level.getElem?_grow_succ scores k items.length _

theorem step?_of_getElem?_levels [Score α] {scores : ι → ι → α}
    {items : List ι} {k : Nat} {level next : Level ι α}
    (hlevel : (ofItems scores items).levels[k]? = some level)
    (hnext : (ofItems scores items).levels[k + 1]? = some next) :
    level.step? scores (items.length + k) = some next := by
  rw [getElem?_levels_succ, hlevel] at hnext
  exact hnext

/-- What the first level has and every step preserves holds of every level. -/
theorem levels_induction [Score α] {scores : ι → ι → α} {items : List ι}
    {P : Nat → Level ι α → Prop} (start : P 0 (Level.ofItems items))
    (step : ∀ k level next, P k level →
      level.step? scores (items.length + k) = some next → P (k + 1) next)
    {k : Nat} {level : Level ι α}
    (hlevel : (ofItems scores items).levels[k]? = some level) :
    P k level := by
  induction k generalizing level with
  | zero =>
      rw [eq_ofItems_of_getElem?_levels_zero hlevel]
      exact start
  | succ k ih =>
      rw [getElem?_levels_succ] at hlevel
      obtain ⟨before, hbefore, hstep⟩ := Option.bind_eq_some_iff.mp hlevel
      exact step k before level (ih hbefore) hstep

@[simp] theorem length_level_ofItems (items : List ι) :
    (Level.ofItems items : Level ι α).length = items.length := by
  simp [Level.ofItems]

theorem length_of_getElem?_levels [Score α] {scores : ι → ι → α}
    {items : List ι} {k : Nat} {level : Level ι α}
    (hlevel : (ofItems scores items).levels[k]? = some level) :
    level.length + k = items.length := by
  refine levels_induction (P := fun k level => level.length + k = items.length)
    (by simp) ?_ hlevel
  intro k level next hlength hstep
  have hnext := Level.length_step? hstep
  omega

theorem ne_nil_of_getElem?_levels [Score α] {scores : ι → ι → α}
    {items : List ι} {k : Nat} {level : Level ι α}
    (hlevel : (ofItems scores items).levels[k]? = some level) :
    level ≠ [] := by
  by_cases hitems : items = []
  · subst hitems
    simp [ofItems] at hlevel
  · refine levels_induction (P := fun _ level => level ≠ [])
      (by simpa [Level.ofItems] using hitems) ?_ hlevel
    intro k level next _ hstep
    obtain ⟨choice, -, -, -, rfl⟩ := Level.step?_cases hstep
    simp

theorem exists_getElem?_levels [Score α] (scores : ι → ι → α)
    {items : List ι} {k : Nat} (hk : k < items.length) :
    ∃ level, (ofItems scores items).levels[k]? = some level := by
  induction k with
  | zero =>
      exact ⟨_, getElem?_levels_zero scores (List.ne_nil_of_length_pos hk)⟩
  | succ k ih =>
      obtain ⟨level, hlevel⟩ := ih (by omega)
      have hlength := length_of_getElem?_levels hlevel
      rw [getElem?_levels_succ, hlevel]
      -- a level with two clusters left is never the last one
      cases hstep : level.step? scores (items.length + k) with
      | none =>
          rw [Level.step?_eq_none_iff] at hstep
          omega
      | some next => exact ⟨next, hstep⟩

/-- There are as many levels as items. -/
theorem length_levels [Score α] (scores : ι → ι → α) (items : List ι) :
    (ofItems scores items).levels.length = items.length := by
  apply le_antisymm
  · by_contra hlong
    have hextra := List.getElem?_eq_getElem (Nat.lt_of_not_le hlong)
    have hlength := length_of_getElem?_levels hextra
    have hnonempty := List.length_pos_of_ne_nil (ne_nil_of_getElem?_levels hextra)
    omega
  · by_contra hshort
    obtain ⟨level, hlevel⟩ :=
      exists_getElem?_levels scores (Nat.lt_of_not_le hshort)
    simp at hlevel

end Dendrogram

end ModuleRecovery
