import ModuleRecovery.Json.Value
import ModuleRecovery.Proofs.Json.Scalars

/-!
# Spellings of a value

A text spells a value when it is the JSON text of the value with any space
between its parts.  The values are those that class model documents are made of:
strings, natural numbers, lists and records.  The compact text and the indented
text of such a value both spell it; they differ only in the space.
-/

namespace ModuleRecovery.Json

open Text

/-- The text is nothing but space. -/
def Space (text : List Char) : Prop :=
  ∀ c ∈ text, isSpace c = true

/-- The entries are spelled one after the other, divided by commas, up to the
closing bracket.  At the first entry there is no comma before it. -/
inductive Listed {β : Type} (spells : β → List Char → Prop) (close : Char) :
    Bool → List β → List Char → Prop where
  | close {first : Bool} {space : List Char} (hspace : Space space) :
      Listed spells close first [] (space ++ [close])
  | first {entry : β} {entries : List β} {space text more : List Char}
      (hspace : Space space) (hentry : spells entry text)
      (hmore : Listed spells close false entries more) :
      Listed spells close true (entry :: entries) (space ++ (text ++ more))
  | next {entry : β} {entries : List β} {before space text more : List Char}
      (hbefore : Space before) (hspace : Space space)
      (hentry : spells entry text)
      (hmore : Listed spells close false entries more) :
      Listed spells close false (entry :: entries)
        (before ++ ',' :: (space ++ (text ++ more)))

/-- A key and a value are spelled with a colon between them. -/
inductive Keyed (spells : Json → List Char → Prop) :
    String × Json → List Char → Prop where
  | member {key : String} {value : Json} {before after text : List Char}
      (hbefore : Space before) (hafter : Space after)
      (hvalue : spells value text) :
      Keyed spells (key, value)
        (quoted key ++ (before ++ ':' :: (after ++ text)))

/-- The text spells the value. -/
inductive Spells : Json → List Char → Prop where
  | string (content : String) : Spells (.string content) (quoted content)
  | natural (n : Nat) : Spells (.ofNat n) (Numeral.write n)
  | array {items : List Json} {text : List Char}
      (h : Listed Spells ']' true items text) :
      Spells (.array items) ('[' :: text)
  | object {members : List (String × Json)} {text : List Char}
      (h : Listed (Keyed Spells) '\x7d' true members text) :
      Spells (.object members) ('\x7b' :: text)

/-! ## Where a spelling begins -/

theorem space_nil : Space [] := by
  intro c hc
  cases hc

theorem skipSpace_append_cons {space : List Char} (hspace : Space space)
    {c : Char} (hc : isSpace c = false) (rest : List Char) :
    skipSpace (space ++ c :: rest) = c :: rest := by
  unfold skipSpace
  rw [List.dropWhile_append_of_pos hspace]
  simp [hc]

theorem isSpace_of_isAsciiDigit {c : Char} (h : isAsciiDigit c = true) :
    isSpace c = false := by
  by_contra hspace
  simp only [isSpace, Bool.not_eq_false, Bool.or_eq_true, beq_iff_eq]
    at hspace
  rcases hspace with ((rfl | rfl) | rfl) | rfl <;> cases h

/-- A spelling begins neither with space nor with a closing bracket. -/
theorem Spells.exists_cons {value : Json} {text : List Char}
    (h : Spells value text) :
    ∃ c more, text = c :: more ∧ isSpace c = false ∧ c ≠ ']' := by
  cases h with
  | string content => exact ⟨'"', _, rfl, by decide, by decide⟩
  | array h => exact ⟨'[', _, rfl, by decide, by decide⟩
  | object h => exact ⟨'\x7b', _, rfl, by decide, by decide⟩
  | natural n =>
      obtain ⟨c, more, hwrite⟩ :=
        List.exists_cons_of_ne_nil (Numeral.write_ne_nil n)
      have hdigit : isAsciiDigit c = true :=
        isAsciiDigit_of_mem_write (n := n) (by simp [hwrite])
      refine ⟨c, more, hwrite, isSpace_of_isAsciiDigit hdigit, ?_⟩
      rintro rfl
      cases hdigit

theorem Listed.length_lt {β : Type} {spells : β → List Char → Prop}
    {close : Char} {first : Bool} {entries : List β} {text : List Char}
    (h : Listed spells close first entries text) :
    entries.length < text.length + first.toNat := by
  induction h with
  | close hspace => simp
  -- the closing bracket makes up for the comma that the first entry lacks
  | first hspace hentry hmore ih =>
      simp only [List.length_cons, List.length_append, Bool.toNat_true,
        Bool.toNat_false] at ih ⊢
      omega
  | next hbefore hspace hentry hmore ih =>
      simp only [List.length_cons, List.length_append, Bool.toNat_false] at ih ⊢
      omega

/-! ## Both ways of writing a value -/

/-- The compact text and the indented text at any depth spell the value. -/
structure Written (value : Json) : Prop where
  compact : Spells value value.compactChars
  indented : ∀ depth, Spells value (value.indentedChars depth)

theorem space_newLine (depth : Nat) : Space (newLine depth) := by
  intro c hc
  rcases List.mem_cons.mp hc with rfl | hblank
  · decide
  · rw [List.eq_of_mem_replicate hblank]
    decide

/-- Entries that are written with the same space before each of them are
listed. -/
theorem listed_of_flatMap {β : Type} {spells : β → List Char → Prop}
    {close : Char} {lead trail : List Char} {write : β → List Char}
    {entries : List β} (hlead : Space lead) (htrail : Space trail)
    (h : ∀ entry ∈ entries, spells entry (write entry)) :
    Listed spells close false entries
      (entries.flatMap (fun entry => ',' :: (lead ++ write entry)) ++
        (trail ++ [close])) := by
  induction entries with
  | nil => exact .close htrail
  | cons entry entries ih =>
      have hmore := ih fun other hother =>
        h other (List.mem_cons_of_mem _ hother)
      have hnext := Listed.next space_nil hlead
        (h entry List.mem_cons_self) hmore
      simpa using hnext

theorem listed_cons {β : Type} {spells : β → List Char → Prop} {close : Char}
    {lead trail : List Char} {write : β → List Char} {entry : β}
    {entries : List β} (hlead : Space lead) (htrail : Space trail)
    (h : ∀ other ∈ entry :: entries, spells other (write other)) :
    Listed spells close true (entry :: entries)
      (lead ++ (write entry ++
        (entries.flatMap (fun other => ',' :: (lead ++ write other)) ++
          (trail ++ [close])))) :=
  .first hlead (h entry List.mem_cons_self)
    (listed_of_flatMap hlead htrail fun other hother =>
      h other (List.mem_cons_of_mem _ hother))

theorem compactItems_cons (item : Json) (items : List Json) :
    compactItems (item :: items) =
      compactChars item ++
        items.flatMap fun other => ',' :: compactChars other := by
  induction items generalizing item with
  | nil => simp [compactItems]
  | cons next items ih => simp [compactItems, ih]

theorem compactMembers_cons (member : String × Json)
    (members : List (String × Json)) :
    compactMembers (member :: members) =
      (quoted member.1 ++ ':' :: compactChars member.2) ++
        members.flatMap fun other =>
          ',' :: (quoted other.1 ++ ':' :: compactChars other.2) := by
  induction members generalizing member with
  | nil => simp [compactMembers]
  | cons next members ih => simp [compactMembers, ih]

theorem indentedItems_cons (depth : Nat) (item : Json) (items : List Json) :
    indentedItems depth (item :: items) =
      newLine depth ++ (indentedChars depth item ++
        items.flatMap fun other =>
          ',' :: (newLine depth ++ indentedChars depth other)) := by
  induction items generalizing item with
  | nil => simp [indentedItems]
  | cons next items ih => simp [indentedItems, ih]

theorem indentedMembers_cons (depth : Nat) (member : String × Json)
    (members : List (String × Json)) :
    indentedMembers depth (member :: members) =
      newLine depth ++ ((quoted member.1 ++ ':' :: ' ' ::
        indentedChars depth member.2) ++
          members.flatMap fun other =>
            ',' :: (newLine depth ++ (quoted other.1 ++ ':' :: ' ' ::
              indentedChars depth other.2))) := by
  induction members generalizing member with
  | nil => simp [indentedMembers]
  | cons next members ih => simp [indentedMembers, ih]

theorem written_string (content : String) : Written (.string content) where
  compact := by
    simpa [compactChars, scalarText] using Spells.string content
  indented := by
    intro depth
    simpa [indentedChars, scalarText] using Spells.string content

theorem scalarText_ofNat (n : Nat) : scalarText (ofNat n) = Numeral.write n :=
  Nat.toList_repr

theorem written_ofNat (n : Nat) : Written (.ofNat n) where
  compact := by
    have hchars : (ofNat n).compactChars = scalarText (ofNat n) := by
      simp [ofNat, compactChars]
    rw [hchars, scalarText_ofNat]
    exact .natural n
  indented := by
    intro depth
    have hchars : (ofNat n).indentedChars depth = scalarText (ofNat n) := by
      simp [ofNat, indentedChars]
    rw [hchars, scalarText_ofNat]
    exact .natural n

theorem written_array {items : List Json} (h : ∀ item ∈ items, Written item) :
    Written (.array items) := by
  have hempty : Spells (.array []) ['[', ']'] := .array (.close space_nil)
  cases items with
  | nil => exact ⟨hempty, fun _ => hempty⟩
  | cons item items =>
      constructor
      · have hitems : Listed Spells ']' true (item :: items) _ :=
          listed_cons space_nil space_nil fun other hother =>
            (h other hother).compact
        simpa [compactChars, compactItems_cons] using Spells.array hitems
      · intro depth
        have hitems : Listed Spells ']' true (item :: items) _ :=
          listed_cons (space_newLine (depth + 1)) (space_newLine depth)
            fun other hother => (h other hother).indented (depth + 1)
        simpa [indentedChars, indentedItems_cons] using Spells.array hitems

theorem written_object {members : List (String × Json)}
    (h : ∀ member ∈ members, Written member.2) :
    Written (.object members) := by
  have hempty : Spells (.object []) ['\x7b', '\x7d'] :=
    .object (.close space_nil)
  have hblank : Space [' '] := by
    intro c hc
    rw [List.mem_singleton.mp hc]
    decide
  cases members with
  | nil => exact ⟨hempty, fun _ => hempty⟩
  | cons member members =>
      constructor
      · have hmembers : Listed (Keyed Spells) '\x7d' true
            (member :: members) _ :=
          listed_cons space_nil space_nil fun other hother =>
            .member space_nil space_nil (h other hother).compact
        simpa [compactChars, compactMembers_cons] using Spells.object hmembers
      · intro depth
        have hmembers : Listed (Keyed Spells) '\x7d' true
            (member :: members) _ :=
          listed_cons (space_newLine (depth + 1)) (space_newLine depth)
            fun other hother => .member space_nil hblank
              ((h other hother).indented (depth + 1))
        simpa [indentedChars, indentedMembers_cons]
          using Spells.object hmembers

end ModuleRecovery.Json
