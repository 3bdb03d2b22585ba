import ModuleRecovery.Proofs.CallGraph.Numbered

/-!
# Call graphs of limited capacity

Places and links are numbered in a fixed number of bits, so a graph kept by
numbers has room for so many methods and for as many links: with 32 bits, of which
the last number is not given, for `2 ^ 32 - 1` of each.  The operations of this
module give nothing if there is no room left, or if a link would begin or end
where no method is.

The second never happens, and the first happens exactly if the graph that is
meant in the end does not fit.  A graph only grows, so there is no need to look at
the graphs on the way.
-/

namespace ModuleRecovery

namespace NumberedGraph

/-- The place of a method; a new method needs room. -/
def placeWithin? (capacity : Nat) (graph : NumberedGraph) (id : MethodId) :
    Option (NumberedGraph × Nat) :=
  if graph.numbers.contains id ∨ graph.methods.size < capacity then
    some (graph.place id)
  else none

/-- Links two methods; both places must be those of methods, and the link needs
room. -/
def linkWithin? (capacity : Nat) (graph : NumberedGraph)
    (caller callee : MethodId) : Option NumberedGraph := do
  let source ← graph.placeWithin? capacity caller
  let target ← source.1.placeWithin? capacity callee
  let graph := target.1
  if source.2 < graph.methods.size ∧ target.2 < graph.methods.size ∧
      graph.links.length < capacity then
    some { graph with links := (source.2, target.2) :: graph.links }
  else none

def enterWithin? (capacity : Nat) (graph : NumberedGraph) :
    GraphEntry → Option NumberedGraph
  | .method id => (graph.placeWithin? capacity id).map Prod.fst
  | .call caller callee => graph.linkWithin? capacity caller callee

def ofHistoryWithin? (capacity : Nat) (history : List GraphEntry) :
    Option NumberedGraph :=
  history.foldlM (enterWithin? capacity) empty

structure Fits (graph : NumberedGraph) (capacity : Nat) : Prop where
  methods : graph.methods.size ≤ capacity
  links : graph.links.length ≤ capacity

/-- The methods at the ends of a link. -/
def edge? (numbered : NumberedGraph) (link : Nat × Nat) :
    Option (MethodId × MethodId) := do
  let caller ← numbered.methods[link.1]?
  let callee ← numbered.methods[link.2]?
  return (caller, callee)

/-- The graph that is kept; the ends of all links must be methods. -/
def graph? (numbered : NumberedGraph) : Option CallGraph := do
  let edges ← numbered.links.reverse.mapM numbered.edge?
  return ⟨numbered.methods, edges.toArray⟩

variable {capacity : Nat} {numbered next : NumberedGraph} {graph : CallGraph}

theorem Represents.graph?_eq (h : numbered.Represents graph) :
    numbered.graph? = some graph := by
  have hlinks : List.Forall₂ (Places graph.nodes) numbered.links.reverse
      graph.edges.toList := by
    rw [← List.reverse_reverse graph.edges.toList]
    exact List.rel_reverse h.links
  have hedges : numbered.links.reverse.mapM numbered.edge? =
      some graph.edges.toList := by
    refine mapM_eq_some_of_forall₂ (hlinks.imp ?_)
    rintro link edge ⟨hcaller, hcallee⟩
    simp [edge?, h.methods, hcaller, hcallee]
  unfold graph?
  rw [hedges, h.methods]
  rfl

/-! ## A graph grows -/

theorem links_place (graph : NumberedGraph) (id : MethodId) :
    (graph.place id).1.links = graph.links := by
  unfold place
  split <;> rfl

theorem size_place (graph : NumberedGraph) (id : MethodId) :
    (graph.place id).1.methods.size =
      if graph.numbers.contains id then graph.methods.size
      else graph.methods.size + 1 := by
  unfold place
  rw [Std.HashMap.contains_eq_isSome_getElem?]
  cases graph.numbers[id]? with
  | some number => rfl
  | none => simp

theorem Fits.of_place {id : MethodId}
    (h : (numbered.place id).1.Fits capacity) : numbered.Fits capacity := by
  obtain ⟨hmethods, hlinks⟩ := h
  rw [size_place] at hmethods
  rw [links_place] at hlinks
  refine ⟨?_, hlinks⟩
  split at hmethods <;> omega

theorem Fits.of_link {caller callee : MethodId}
    (h : (numbered.link caller callee).Fits capacity) :
    ((numbered.place caller).1.place callee).1.Fits capacity :=
  ⟨h.methods, Nat.le_of_succ_le h.links⟩

theorem Fits.of_enter {entry : GraphEntry}
    (h : (numbered.enter entry).Fits capacity) : numbered.Fits capacity := by
  cases entry with
  | method id => exact h.of_place
  | call caller callee => exact h.of_link.of_place.of_place

/-! ## One entry -/

theorem Fits.place_iff (h : numbered.Fits capacity) (id : MethodId) :
    (numbered.place id).1.Fits capacity ↔
      numbered.numbers.contains id ∨ numbered.methods.size < capacity := by
  constructor
  · intro hplaced
    have hsize := hplaced.methods
    rw [size_place] at hsize
    by_cases hold : numbered.numbers.contains id
    · exact .inl hold
    · rw [if_neg hold] at hsize
      exact .inr hsize
  · intro hroom
    refine ⟨?_, (links_place numbered id).symm ▸ h.links⟩
    rw [size_place]
    by_cases hold : numbered.numbers.contains id
    · rw [if_pos hold]
      exact h.methods
    · rw [if_neg hold]
      exact hroom.resolve_left hold

theorem placeWithin?_eq_some_iff (hfits : numbered.Fits capacity)
    {id : MethodId} {placed : NumberedGraph × Nat} :
    numbered.placeWithin? capacity id = some placed ↔
      placed = numbered.place id ∧ placed.1.Fits capacity := by
  unfold placeWithin?
  rw [Option.ite_none_right_eq_some, ← hfits.place_iff, Option.some_inj]
  constructor
  · rintro ⟨hplaced, rfl⟩
    exact ⟨rfl, hplaced⟩
  · rintro ⟨rfl, hplaced⟩
    exact ⟨hplaced, rfl⟩

/-- The places of two methods are places of methods after both were entered. -/
theorem Represents.places_lt (h : numbered.Represents graph)
    (caller callee : MethodId) :
    let placed := (numbered.place caller).1.place callee
    (numbered.place caller).2 < placed.1.methods.size ∧
      placed.2 < placed.1.methods.size := by
  intro placed
  obtain ⟨hcaller, hsource⟩ := h.place caller
  obtain ⟨hcallee, htarget⟩ := hcaller.place callee
  have hsize : placed.1.methods =
      ((graph.addMethod caller).addMethod callee).nodes := hcallee.methods
  rw [hsize]
  exact ⟨(Array.getElem?_eq_some_iff.mp
      (getElem?_nodes_addMethod hsource callee)).1,
    (Array.getElem?_eq_some_iff.mp htarget).1⟩

theorem linkWithin?_eq_some_iff (h : numbered.Represents graph)
    (hfits : numbered.Fits capacity) {caller callee : MethodId} :
    numbered.linkWithin? capacity caller callee = some next ↔
      next = numbered.link caller callee ∧ next.Fits capacity := by
  obtain ⟨hsource, htarget⟩ := h.places_lt caller callee
  unfold linkWithin?
  constructor
  · intro hlink
    obtain ⟨_, hplaced, hlink⟩ := Option.bind_eq_some_iff.mp hlink
    obtain ⟨rfl, hcaller⟩ := (placeWithin?_eq_some_iff hfits).mp hplaced
    obtain ⟨_, hplaced, hlink⟩ := Option.bind_eq_some_iff.mp hlink
    obtain ⟨rfl, hcallee⟩ := (placeWithin?_eq_some_iff hcaller).mp hplaced
    obtain ⟨⟨-, -, hroom⟩, hlink⟩ := Option.ite_none_right_eq_some.mp hlink
    cases hlink
    exact ⟨rfl, hcallee.methods, hroom⟩
  · rintro ⟨rfl, hlinked⟩
    -- the graph only grows, so it fits after each of the two methods as well
    have hcallee := hlinked.of_link
    have hcaller := hcallee.of_place
    refine Option.bind_eq_some_iff.mpr
      ⟨_, (placeWithin?_eq_some_iff hfits).mpr ⟨rfl, hcaller⟩, ?_⟩
    refine Option.bind_eq_some_iff.mpr
      ⟨_, (placeWithin?_eq_some_iff hcaller).mpr ⟨rfl, hcallee⟩, ?_⟩
    exact if_pos ⟨hsource, htarget, hlinked.links⟩

theorem enterWithin?_eq_some_iff (h : numbered.Represents graph)
    (hfits : numbered.Fits capacity) {entry : GraphEntry} :
    numbered.enterWithin? capacity entry = some next ↔
      next = numbered.enter entry ∧ next.Fits capacity := by
  cases entry with
  | call caller callee => exact linkWithin?_eq_some_iff h hfits
  | method id =>
      unfold enterWithin?
      rw [Option.map_eq_some_iff]
      constructor
      · rintro ⟨placed, hplaced, rfl⟩
        obtain ⟨rfl, hplaced⟩ := (placeWithin?_eq_some_iff hfits).mp hplaced
        exact ⟨rfl, hplaced⟩
      · rintro ⟨rfl, hplaced⟩
        exact ⟨_, (placeWithin?_eq_some_iff hfits).mpr ⟨rfl, hplaced⟩, rfl⟩

/-! ## All entries -/

/-- A graph is filled within its capacity exactly if the graph after all entries
fits, and it is then that graph. -/
theorem ofHistoryWithin?_eq_some_iff {history : List GraphEntry} :
    ofHistoryWithin? capacity history = some next ↔
      next = ofHistory history ∧ next.Fits capacity := by
  induction history using List.reverseRecOn generalizing next with
  | nil =>
      have hempty : empty.Fits capacity := ⟨Nat.zero_le _, Nat.zero_le _⟩
      constructor
      · intro h
        cases h
        exact ⟨rfl, hempty⟩
      · rintro ⟨rfl, -⟩
        rfl
  | append_singleton history entry ih =>
      have hwithin : ofHistoryWithin? capacity (history ++ [entry]) =
          (ofHistoryWithin? capacity history).bind
            (enterWithin? capacity · entry) := by
        simp [ofHistoryWithin?]
      rw [hwithin, ofHistory_append_singleton, Option.bind_eq_some_iff]
      constructor
      · rintro ⟨_, hbefore, hentry⟩
        obtain ⟨rfl, hfits⟩ := ih.mp hbefore
        exact (enterWithin?_eq_some_iff (represents_ofHistory history)
          hfits).mp hentry
      · rintro ⟨rfl, hfits⟩
        have hbefore := hfits.of_enter
        exact ⟨_, ih.mpr ⟨rfl, hbefore⟩,
          (enterWithin?_eq_some_iff (represents_ofHistory history)
            hbefore).mpr ⟨rfl, hfits⟩⟩

end NumberedGraph

end ModuleRecovery
