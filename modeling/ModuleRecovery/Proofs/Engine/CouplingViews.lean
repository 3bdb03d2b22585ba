import ModuleRecovery.Proofs.Coupling.Edges
import ModuleRecovery.Proofs.Coupling.Invariance
import ModuleRecovery.Proofs.Coupling.Ranked
import ModuleRecovery.Proofs.Engine.Reachable

/-!
# The views of a coupling agree

An engine shows its coupling in four ways: as a ranked listing, pair by pair, as
a matrix, and by the number of coupled pairs.  They read the counts through
different paths.  That the listing can be asked for pair by pair rests on the
counts naming no class outside the model, which is a fact about how an engine is
made and therefore holds in every state that can be reached.
-/

namespace ModuleRecovery

theorem ClassModel.hasClass_eq (model : ClassModel) (name : String) :
    model.hasClass name = decide (name ∈ model.names) := by
  rw [Bool.eq_iff_iff]
  simp [hasClass, classIndex?]

theorem ClassPair.mem_of_of_mem {names : List String} {a b : String}
    {pair : ClassPair} (ha : a ∈ names) (hb : b ∈ names)
    (h : pair = ClassPair.of a b) :
    pair.first ∈ names ∧ pair.second ∈ names := by
  rw [← pair.of_first_second, ClassPair.of_eq_of_iff] at h
  rcases h with ⟨hfirst, hsecond⟩ | ⟨hfirst, hsecond⟩
  · rw [hfirst, hsecond]
    exact ⟨ha, hb⟩
  · rw [hfirst, hsecond]
    exact ⟨hb, ha⟩

namespace Coupling

theorem rawBetween_comm (coupling : Coupling) (a b : String) :
    coupling.rawBetween a b = coupling.rawBetween b a := by
  unfold rawBetween
  rw [ClassPair.of_comm]
  simp only [eq_comm]

theorem first_lt_second {coupling : Coupling} {pair : ClassPair} {count : ℕ}
    (h : coupling.raw[pair]? = some count) : pair.first < pair.second := by
  have hne := beq_eq_false_iff_ne.mp (coupling.proper pair count h).1
  exact lt_of_le_of_ne (not_lt.mp pair.ordered) hne

theorem getElem?_of_rawBetween_pos {coupling : Coupling} {pair : ClassPair}
    (h : 0 < coupling.rawBetween pair.first pair.second) :
    coupling.raw[pair]? =
      some (coupling.rawBetween pair.first pair.second) := by
  unfold rawBetween at h ⊢
  split at h
  · omega
  · rename_i hne
    rw [if_neg hne]
    rw [ClassPair.of_first_second, Std.ExtTreeMap.getD_eq_getD_getElem?] at h ⊢
    cases hcount : coupling.raw[pair]? with
    | none => simp [hcount] at h
    | some count => rfl

/-- The sorted names stand in strictly ascending order. -/
theorem pairwise_sortedNames (names : List String) :
    (sortedNames names).Pairwise (· < ·) := by
  have hle := (pairwise_mergeSort_names names).sublist
    (eraseDups_sublist _)
  have hne := nodup_eraseDups (names.mergeSort fun a b => decide (a ≤ b))
  exact hle.imp₂ (fun _ _ => lt_of_le_of_ne) hne

theorem mem_sortedNames {names : List String} {name : String} :
    name ∈ sortedNames names ↔ name ∈ names := by
  unfold sortedNames
  rw [List.mem_eraseDups, List.mem_mergeSort]

end Coupling

/-- Every counted pair is a pair of classes of the model. -/
theorem Analysis.Consistent.mem_names {analysis : Analysis}
    (h : analysis.Consistent) {pair : ClassPair} {count : ℕ}
    (hcount : analysis.coupling.raw[pair]? = some count) :
    pair.first ∈ analysis.model.names ∧ pair.second ∈ analysis.model.names := by
  rw [Coupling.tallies_pairsOf_resolve h.coupling pair] at hcount
  split at hcount
  · rename_i hmem
    obtain ⟨a, b, ha, hb, -, hpair⟩ := ClassModel.mem_pairs_iff.mp
      (ClassModel.mem_pairs_of_mem_pairsOf hmem)
    exact ClassPair.mem_of_of_mem ha hb hpair
  · cases hcount

/-- The order of a listing: by falling score, and among pairs of one score by the
first name and then by the second. -/
def PairReport.Before (p q : PairReport) : Prop :=
  q.score < p.score ∨
    p.score = q.score ∧
      (p.first < q.first ∨ p.first = q.first ∧ p.second < q.second)

/-- The score in a row and a column. -/
def MatrixReport.cell? (matrix : MatrixReport) (i j : Nat) : Option Float :=
  matrix.values[i]?.bind (·[j]?)

namespace Engine

/-- The names of the two classes of each listed pair. -/
def listedPairs (engine : Engine) : List (String × String) :=
  (engine.coupling none).pairs.map fun entry => (entry.first, entry.second)

/-- What the views of the coupling say about each other. -/
structure CouplingViewsAgree (engine : Engine) : Prop where
  /-- No pair is listed twice. -/
  nodup : engine.listedPairs.Nodup
  /-- The pairs of two names in ascending order are listed that have calls
  between them. -/
  listed : ∀ a b, (a, b) ∈ engine.listedPairs ↔
    a < b ∧ ∃ report, engine.pair a b = .ok report ∧ 0 < report.raw
  /-- A listed pair is what asking for its classes gives, in either order. -/
  asked : ∀ entry ∈ (engine.coupling none).pairs,
    engine.pair entry.first entry.second = .ok entry ∧
      engine.pair entry.second entry.first = .ok entry
  total : ∀ limit?, (engine.coupling limit?).total =
    ((engine.coupling none).pairs.map PairReport.raw).sum
  pairCount : ∀ limit?,
    (engine.coupling limit?).pairCount = engine.health.coupledPairs
  limited : ∀ limit, (engine.coupling (some limit)).pairs =
    (engine.coupling none).pairs.take limit
  ranked : (engine.coupling none).pairs.Pairwise PairReport.Before
  /-- The matrix has the classes of the model in strictly ascending order. -/
  sorted : engine.matrix.classes.Pairwise (· < ·)
  classes : ∀ name,
    name ∈ engine.matrix.classes ↔ name ∈ engine.analysis.model.names
  /-- A cell of the matrix is the score of its two classes. -/
  cell : ∀ i j a b, engine.matrix.classes[i]? = some a →
    engine.matrix.classes[j]? = some b →
    ∃ report, engine.pair a b = .ok report ∧
      engine.matrix.cell? i j = some report.score
  /-- Rows and columns end with the classes. -/
  square : ∀ i j, (engine.matrix.cell? i j).isSome ↔
    i < engine.matrix.classes.length ∧ j < engine.matrix.classes.length
  symmetric : ∀ i j, engine.matrix.cell? i j = engine.matrix.cell? j i
  diagonal : ∀ i < engine.matrix.classes.length,
    engine.matrix.cell? i i = some 0
  /-- Asking fails for a class that is not in the model, the first such one. -/
  missing : ∀ a b error, engine.pair a b = .error error ↔
    a ∉ engine.analysis.model.names ∧ error = .classNotFound a ∨
      a ∈ engine.analysis.model.names ∧ b ∉ engine.analysis.model.names ∧
        error = .classNotFound b

/-! ## Pair by pair -/

section Pairs

variable {engine : Engine} {a b : String}

theorem pair_of_mem (ha : a ∈ engine.analysis.model.names)
    (hb : b ∈ engine.analysis.model.names) :
    engine.pair a b =
      .ok ⟨(ClassPair.of a b).first, (ClassPair.of a b).second,
        engine.analysis.coupling.rawBetween a b,
        engine.analysis.coupling.between a b⟩ := by
  simp [pair, ClassModel.hasClass_eq, ha, hb]

theorem pair_eq_error_iff {error : EngineError} :
    engine.pair a b = .error error ↔
      a ∉ engine.analysis.model.names ∧ error = .classNotFound a ∨
        a ∈ engine.analysis.model.names ∧
          b ∉ engine.analysis.model.names ∧ error = .classNotFound b := by
  by_cases ha : a ∈ engine.analysis.model.names
  · by_cases hb : b ∈ engine.analysis.model.names
    · simp [pair_of_mem ha hb, ha, hb]
    · simp [pair, ClassModel.hasClass_eq, ha, hb, eq_comm]
  · simp [pair, ClassModel.hasClass_eq, ha, eq_comm]

/-- What asking for two classes gives depends on their order neither in the names
shown nor in the numbers. -/
theorem pair_comm (ha : a ∈ engine.analysis.model.names)
    (hb : b ∈ engine.analysis.model.names) :
    engine.pair a b = engine.pair b a := by
  rw [pair_of_mem ha hb, pair_of_mem hb ha, ClassPair.of_comm,
    Coupling.rawBetween_comm, Coupling.between_comm]

theorem mem_of_pair_eq_ok {report : PairReport}
    (h : engine.pair a b = .ok report) :
    a ∈ engine.analysis.model.names ∧ b ∈ engine.analysis.model.names := by
  by_cases ha : a ∈ engine.analysis.model.names
  · by_cases hb : b ∈ engine.analysis.model.names
    · exact ⟨ha, hb⟩
    · cases h.symm.trans (pair_eq_error_iff.mpr (.inr ⟨ha, hb, rfl⟩))
  · cases h.symm.trans (pair_eq_error_iff.mpr (.inl ⟨ha, rfl⟩))

theorem pair_of_lt (hab : a < b) (ha : a ∈ engine.analysis.model.names)
    (hb : b ∈ engine.analysis.model.names) :
    engine.pair a b =
      .ok ⟨a, b, engine.analysis.coupling.rawBetween a b,
        engine.analysis.coupling.between a b⟩ := by
  rw [pair_of_mem ha hb, ClassPair.of, dif_neg (String.lt_asymm hab)]

end Pairs

/-! ## The listing -/

theorem pairs_coupling (engine : Engine) :
    (engine.coupling none).pairs =
      engine.analysis.coupling.ranked.map pairReport :=
  rfl

theorem mem_pairs_coupling {engine : Engine} {entry : PairReport} :
    entry ∈ (engine.coupling none).pairs ↔
      ∃ pair : ClassPair,
        engine.analysis.coupling.raw[pair]? = some entry.raw ∧
          entry = ⟨pair.first, pair.second, entry.raw,
            engine.analysis.coupling.between pair.first pair.second⟩ := by
  rw [pairs_coupling, List.mem_map]
  constructor
  · rintro ⟨⟨pair, raw, score⟩, hmem, rfl⟩
    obtain ⟨hraw, hscore⟩ := (Coupling.mem_pairs_iff _ _).mp
      ((Coupling.ranked_perm _).mem_iff.mp hmem)
    exact ⟨pair, hraw, by
      rw [Coupling.between_of_getElem? hraw, ← hscore]
      rfl⟩
  · rintro ⟨pair, hraw, hentry⟩
    refine ⟨⟨pair, entry.raw, entry.score⟩, ?_, ?_⟩
    · rw [(Coupling.ranked_perm _).mem_iff, Coupling.mem_pairs_iff]
      refine ⟨hraw, ?_⟩
      rw [hentry]
      exact Coupling.between_of_getElem? hraw
    · rw [hentry]
      rfl

theorem nodup_listedPairs (engine : Engine) : engine.listedPairs.Nodup := by
  unfold listedPairs
  rw [pairs_coupling, List.map_map, List.Nodup, List.pairwise_map,
    (Coupling.ranked_perm _).pairwise_iff fun h => h.symm]
  refine (Coupling.pairwise_pairs _).imp ?_
  intro p q hlt heq
  simp only [Function.comp_apply, pairReport, Prod.mk.injEq] at heq
  rw [ClassPair.compare_eq_lt_iff, heq.1, heq.2] at hlt
  rcases hlt with hlt | ⟨-, hlt⟩
  · exact lt_irrefl _ hlt
  · exact lt_irrefl _ hlt

theorem pairwise_before_coupling (engine : Engine) :
    (engine.coupling none).pairs.Pairwise PairReport.Before := by
  rw [pairs_coupling, List.pairwise_map]
  refine (Coupling.pairwise_ranked _).imp ?_
  intro p q hpq
  rw [ClassPair.compare_eq_lt_iff] at hpq
  exact hpq

section Consistent

variable {engine : Engine} (h : engine.analysis.Consistent)

include h

theorem pair_of_mem_pairs {entry : PairReport}
    (hentry : entry ∈ (engine.coupling none).pairs) :
    entry.first < entry.second ∧
      engine.pair entry.first entry.second = .ok entry ∧
      engine.pair entry.second entry.first = .ok entry := by
  obtain ⟨pair, hraw, heq⟩ := mem_pairs_coupling.mp hentry
  obtain ⟨hfirst, hsecond⟩ := h.mem_names hraw
  have hlt := Coupling.first_lt_second hraw
  have hpair := pair_of_lt hlt hfirst hsecond
  rw [Coupling.rawBetween_of_getElem? hraw, ← heq] at hpair
  have hswapped := (pair_comm hsecond hfirst).trans hpair
  rw [heq] at hpair hswapped ⊢
  exact ⟨hlt, hpair, hswapped⟩

theorem mem_listedPairs_iff (a b : String) :
    (a, b) ∈ engine.listedPairs ↔
      a < b ∧ ∃ report, engine.pair a b = .ok report ∧ 0 < report.raw := by
  unfold listedPairs
  rw [List.mem_map]
  constructor
  · rintro ⟨entry, hentry, heq⟩
    cases heq
    obtain ⟨hlt, hpair, -⟩ := pair_of_mem_pairs h hentry
    obtain ⟨pair, hraw, -⟩ := mem_pairs_coupling.mp hentry
    exact ⟨hlt, entry, hpair,
      (engine.analysis.coupling.proper pair entry.raw hraw).2⟩
  · rintro ⟨hlt, report, hreport, hpos⟩
    obtain ⟨ha, hb⟩ := mem_of_pair_eq_ok hreport
    rw [pair_of_lt hlt ha hb] at hreport
    cases hreport
    let pair : ClassPair := ⟨a, b, String.lt_asymm hlt⟩
    have hraw : engine.analysis.coupling.raw[pair]? =
        some (engine.analysis.coupling.rawBetween a b) :=
      Coupling.getElem?_of_rawBetween_pos hpos
    exact ⟨⟨a, b, _, _⟩, mem_pairs_coupling.mpr ⟨pair, hraw, rfl⟩, rfl⟩

end Consistent

/-! ## The matrix -/

theorem cell?_matrix (engine : Engine) (i j : Nat) :
    engine.matrix.cell? i j =
      engine.matrix.classes[i]?.bind fun a =>
        engine.matrix.classes[j]?.map fun b =>
          engine.analysis.coupling.between a b := by
  unfold MatrixReport.cell? matrix Coupling.table
  simp only [List.getElem?_map, Option.bind_map, Function.comp_def]
  rfl

theorem cell?_matrix_comm (engine : Engine) (i j : Nat) :
    engine.matrix.cell? i j = engine.matrix.cell? j i := by
  rw [cell?_matrix, cell?_matrix]
  cases engine.matrix.classes[i]? <;> cases engine.matrix.classes[j]? <;>
    simp [Coupling.between_comm]

theorem mem_classes_matrix {engine : Engine} {name : String} :
    name ∈ engine.matrix.classes ↔ name ∈ engine.analysis.model.names :=
  Coupling.mem_sortedNames

/-! ## All views -/

/-- In every state of an engine its views of the coupling agree. -/
theorem Reachable.couplingViewsAgree {engine : Engine}
    (h : engine.Reachable) : engine.CouplingViewsAgree where
  nodup := engine.nodup_listedPairs
  listed := mem_listedPairs_iff h.consistent
  asked := fun _ hentry => (pair_of_mem_pairs h.consistent hentry).2
  total := by
    intro limit?
    rw [pairs_coupling, List.map_map]
    exact engine.analysis.coupling.sum_raw_ranked.symm
  pairCount := fun _ => engine.analysis.coupling.length_ranked
  limited := fun _ => List.map_take
  ranked := engine.pairwise_before_coupling
  sorted := Coupling.pairwise_sortedNames _
  classes := fun _ => mem_classes_matrix
  cell := by
    intro i j a b hi hj
    refine ⟨_, pair_of_mem (mem_classes_matrix.mp (List.mem_of_getElem? hi))
      (mem_classes_matrix.mp (List.mem_of_getElem? hj)), ?_⟩
    rw [cell?_matrix, hi, hj]
    rfl
  square := by
    intro i j
    rw [cell?_matrix]
    by_cases hi : i < engine.matrix.classes.length
    · by_cases hj : j < engine.matrix.classes.length
      · simp [hi, hj]
      · simp [hi, hj]
    · simp [hi]
  symmetric := engine.cell?_matrix_comm
  diagonal := by
    intro i hi
    rw [cell?_matrix, List.getElem?_eq_getElem hi]
    exact congrArg some (Coupling.between_self _ _)
  missing := fun _ _ _ => pair_eq_error_iff

/-- Two classes, of which the second calls the first, are loaded, clustered and
loaded again; they are listed with one call. -/
theorem Reachable.couplingViewsAgree_two_classes :
    ∃ (content : FileContent) (engine next : Engine),
      load "model.json" true content = .ok engine ∧
      (engine.ask .dendrogram).1.reload content = .ok next ∧
      next.analysis.model.names = ["B", "A"] ∧ next.CouplingViewsAgree ∧
      ∃ entry ∈ (next.coupling none).pairs,
        entry.first = "A" ∧ entry.second = "B" ∧ entry.raw = 1 := by
  let text :=
    "[[[\"B\",\"\",0,[[\"g\"]]],[\"A\",\"\",0,[[\"f\",0,0,[\"g:0\"]]]]]]"
  have hread : (load "model.json" true (.ok text.toUTF8)).toOption.map
      (fun engine => (engine.analysis.model.names,
        engine.analysis.coupling.rawBetween "A" "B")) =
      some (["B", "A"], 1) := by cbv
  cases hload : load "model.json" true (.ok text.toUTF8) with
  | error error =>
      rw [hload] at hread
      cases hread
  | ok engine =>
      rw [hload] at hread
      obtain ⟨hnames, hraw⟩ := Prod.mk.inj (Option.some.inj hread)
      obtain ⟨hpath, hexclude⟩ := origin_of_load hload
      have hasked : (engine.ask .dendrogram).1.path? = some "model.json" :=
        hpath
      have hreload : (engine.ask .dendrogram).1.reload (.ok text.toUTF8) =
          .ok engine := by
        rw [reload_eq_load hasked]
        change (load "model.json" engine.excludeTests _).mapError _ = _
        rw [hexclude, hload]
        rfl
      have hagree : engine.CouplingViewsAgree := Reachable.couplingViewsAgree
        (((Reachable.loaded hload).asked _).reloaded hreload)
      have hpair : engine.pair "A" "B" = _ :=
        pair_of_mem (by rw [hnames]; decide) (by rw [hnames]; decide)
      rw [hraw] at hpair
      have hlisted := (hagree.listed "A" "B").mpr
        ⟨by decide, _, hpair, Nat.one_pos⟩
      obtain ⟨entry, hentry, hclasses⟩ := List.mem_map.mp hlisted
      obtain ⟨hfirst, hsecond⟩ := Prod.mk.inj hclasses
      have hentryRaw := (hagree.asked entry hentry).1
      rw [hfirst, hsecond, hpair] at hentryRaw
      exact ⟨.ok text.toUTF8, engine, engine, hload, hreload, hnames, hagree,
        entry, hentry, hfirst, hsecond,
        congrArg PairReport.raw (Except.ok.inj hentryRaw).symm⟩

end Engine

end ModuleRecovery
