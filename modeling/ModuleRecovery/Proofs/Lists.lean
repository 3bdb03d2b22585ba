import Mathlib.Data.List.Forall2
import Mathlib.Data.List.Nodup
import Mathlib.Tactic

/-!
# Lists

What several parts of the development need of lists: numbering the entries,
leaving out repeated ones, finding an entry of a concatenation by its place, and
looking up all entries where each of them is found.
-/

namespace ModuleRecovery

/-! ## Places -/

theorem pairwise_zipIdx {β : Type} (list : List β) :
    list.zipIdx.Pairwise fun p q => p.2 < q.2 := by
  apply List.pairwise_map.mp
  rw [List.zipIdx_map_snd]
  exact List.pairwise_lt_range'

/-- In a concatenation an entry stands behind all of the earlier lists. -/
theorem getElem?_flatMap_of_getElem? {β γ : Type} {f : β → List γ}
    {list : List β} {k n : Nat} {x : β} {y : γ} (hx : list[k]? = some x)
    (hy : (f x)[n]? = some y) :
    (list.flatMap f)[((list.take k).map fun x => (f x).length).sum + n]? =
      some y := by
  induction list generalizing k with
  | nil => simp at hx
  | cons first rest ih =>
      rw [List.flatMap_cons]
      cases k with
      | zero =>
          obtain rfl : first = x := by simpa using hx
          have hbound := (List.getElem?_eq_some_iff.mp hy).1
          simpa [List.getElem?_append_left hbound] using hy
      | succ k =>
          have hrest := ih (List.getElem?_cons_succ.symm.trans hx)
          rw [List.take_succ_cons, List.map_cons, List.sum_cons, Nat.add_assoc,
            List.getElem?_append_right (Nat.le_add_right _ _),
            Nat.add_sub_cancel_left]
          exact hrest

theorem idxOf?_eq_some_of_nodup {β : Type} [BEq β] [LawfulBEq β]
    {list : List β} (h : list.Nodup) {k : Nat} {x : β}
    (hx : list[k]? = some x) : list.idxOf? x = some k := by
  obtain ⟨hk, rfl⟩ := List.getElem?_eq_some_iff.mp hx
  refine List.idxOf?_eq_some_iff.mpr ⟨hk, rfl, ?_⟩
  intro j hj heq
  exact hj.ne (h.getElem_inj_iff.mp heq)

/-! ## Repeated entries -/

theorem nodup_eraseDups {β : Type} [BEq β] [LawfulBEq β] (list : List β) :
    list.eraseDups.Nodup := by
  induction hlength : list.length using Nat.strong_induction_on
    generalizing list with
  | h n ih =>
      cases list with
      | nil => simp
      | cons first rest =>
          rw [List.eraseDups_cons, List.nodup_cons]
          refine ⟨by simp [List.mem_eraseDups], ?_⟩
          refine ih _ ?_ _ rfl
          rw [← hlength, List.length_cons]
          exact Nat.lt_succ_of_le (List.length_filter_le _ _)

theorem eraseDups_sublist {β : Type} [BEq β] (list : List β) :
    list.eraseDups.Sublist list := by
  induction hlength : list.length using Nat.strong_induction_on
    generalizing list with
  | h n ih =>
      cases list with
      | nil => simp
      | cons first rest =>
          rw [List.eraseDups_cons]
          have hrest := ih _ (by
            rw [← hlength, List.length_cons]
            exact Nat.lt_succ_of_le (List.length_filter_le _ _))
            (rest.filter fun b => !b == first) rfl
          exact (hrest.trans List.filter_sublist).cons_cons first

theorem head?_eraseDups {β : Type} [BEq β] (list : List β) :
    list.eraseDups.head? = list.head? := by
  cases list with
  | nil => rfl
  | cons first rest => rw [List.eraseDups_cons, List.head?_cons, List.head?_cons]

theorem card_toFinset_eq_length_eraseDups {β : Type} [DecidableEq β]
    (list : List β) : list.toFinset.card = list.eraseDups.length := by
  have hsame : list.toFinset = list.eraseDups.toFinset := by
    ext x
    simp
  rw [hsame, List.toFinset_card_of_nodup (nodup_eraseDups list)]

theorem eraseDups_of_nodup {β : Type} [DecidableEq β] {list : List β}
    (h : list.Nodup) : list.eraseDups = list := by
  apply (eraseDups_sublist list).eq_of_length
  rw [← card_toFinset_eq_length_eraseDups, List.toFinset_card_of_nodup h]

/-- An entry comes after as many others as differ before it is first met. -/
theorem idxOf?_eraseDups {β : Type} [DecidableEq β] (list : List β) (x : β) :
    list.eraseDups.idxOf? x =
      if x ∈ list then some (list.takeWhile (· ≠ x)).toFinset.card
      else none := by
  by_cases hx : x ∈ list
  · obtain ⟨front, back, rfl, hfront⟩ := List.eq_append_cons_of_mem hx
    have hwhile : (front ++ x :: back).takeWhile (· ≠ x) = front := by
      rw [List.takeWhile_append_of_pos]
      · simp
      · intro y hy
        simpa using ne_of_mem_of_not_mem hy hfront
    rw [if_pos hx, hwhile, card_toFinset_eq_length_eraseDups]
    apply idxOf?_eq_some_of_nodup (nodup_eraseDups _)
    rw [List.eraseDups_append, List.getElem?_append_right le_rfl, Nat.sub_self]
    simp [List.removeAll, hfront, List.eraseDups_cons]
  · rw [if_neg hx, List.idxOf?_eq_none_iff]
    simpa using hx

theorem nodup_map_of_subperm {β γ : Type} {f : β → γ} {list other : List β}
    (h : list.Subperm other) (hother : (other.map f).Nodup) :
    (list.map f).Nodup := by
  obtain ⟨kept, hperm, hsublist⟩ := h
  exact (hperm.map f).nodup_iff.mp (hother.sublist (hsublist.map f))

/-! ## Looking up all entries -/

theorem mapM_eq_some_of_forall₂ {β γ : Type} {f : β → Option γ}
    {list : List β} {values : List γ}
    (h : List.Forall₂ (fun x y => f x = some y) list values) :
    list.mapM f = some values := by
  induction h with
  | nil => rfl
  | cons hfirst _ ih =>
      rw [List.mapM_cons, hfirst, ih]
      rfl

theorem mapM_eq_some_map {β γ : Type} {f : β → Option γ} {g : β → γ}
    {list : List β} (h : ∀ x ∈ list, f x = some (g x)) :
    list.mapM f = some (list.map g) :=
  mapM_eq_some_of_forall₂
    (List.forall₂_map_right_iff.mpr (List.forall₂_same.mpr h))

theorem mapM_eq_some_filterMap {β γ : Type} {f : β → Option γ}
    {list : List β} (h : ∀ x ∈ list, (f x).isSome) :
    list.mapM f = some (list.filterMap f) := by
  have hsame : List.Forall₂ (fun x y => x = y ∧ (f y).isSome) list list :=
    List.forall₂_same.mpr fun x hx => ⟨rfl, h x hx⟩
  have hvalues : List.Forall₂ (fun x y => f x = some y)
      (list.filterMap some) (list.filterMap f) := by
    refine List.rel_filterMap ?_ hsame
    rintro x _ ⟨rfl, hsome⟩
    obtain ⟨value, hvalue⟩ := Option.isSome_iff_exists.mp hsome
    rw [hvalue]
    exact .some hvalue
  rw [List.filterMap_some] at hvalues
  exact mapM_eq_some_of_forall₂ hvalues

end ModuleRecovery
