import ModuleRecovery.Proofs.Json.Spelling

/-!
# Reading what spells a value

A reader accepts a value when it takes every text that spells the value up to its
end, gives the same result for all of them and logs nothing.  Lists are accepted
when their items are, and records when each member is accepted by its field and
all fields together fill a draft that can be completed.

The other direction needs no spelling: what holds of every result of the items
and fields holds of the parts of every list and record that is read.
-/

namespace ModuleRecovery.Json

open Text

variable {ω α β σ : Type}

namespace Reader

theorem run_bind_of_ok {first : Reader ω α} {next : α → Reader ω β}
    {text rest : List Char} {a : α}
    (h : first.run text = ([], .ok (a, rest))) :
    (first >>= next).run text = (next a).run rest := by
  change (Reader.bind first next).run text = _
  simp [Reader.bind, h]

theorem run_scan_of_ok {read : Scan α} {text rest : List Char} {a : α}
    (h : read text = .ok (a, rest)) :
    (scan read : Reader ω α).run text = ([], .ok (a, rest)) := by
  simp [scan, h]

end Reader

/-! ## What may follow a value -/

/-- The text begins with something that can stand behind a value, if it is not
empty. -/
def Follows (text : List Char) : Prop :=
  ∀ c ∈ text.head?, isSpace c = true ∨ c = ',' ∨ c = ']' ∨ c = '\x7d'

theorem follows_nil : Follows [] := by
  intro c hc
  cases hc

theorem follows_space_append {space text : List Char} (hspace : Space space)
    (htext : Follows text) : Follows (space ++ text) := by
  cases space with
  | nil => exact htext
  | cons c space =>
      intro d hd
      cases hd
      exact .inl (hspace c List.mem_cons_self)

theorem Follows.endsNumber {text : List Char} (h : Follows text) :
    EndsNumber text := by
  intro c hc
  rcases h c hc with hspace | rfl | rfl | rfl
  · simp only [isSpace, Bool.or_eq_true, beq_iff_eq] at hspace
    rcases hspace with ((rfl | rfl) | rfl) | rfl <;> decide
  all_goals decide

/-- Behind an entry that is not the last there is a comma, and behind the last
there is the closing bracket. -/
theorem Listed.follows {spells : β → List Char → Prop} {close : Char}
    (hclose : close = ']' ∨ close = '\x7d') {entries : List β}
    {text : List Char} (h : Listed spells close false entries text)
    (rest : List Char) : Follows (text ++ rest) := by
  cases h with
  | close hspace =>
      rw [List.append_assoc]
      refine follows_space_append hspace ?_
      intro c hc
      cases hc
      exact .inr (.inr hclose)
  | next hbefore hspace hentry hmore =>
      rw [List.append_assoc]
      refine follows_space_append hbefore ?_
      intro c hc
      cases hc
      exact .inr (.inl rfl)

/-! ## Accepting a value -/

/-- Every text that spells the value is read up to its end, and `a` is what it
gives. -/
def Reader.Accepts (reader : Reader ω α) (value : Json) (a : α) : Prop :=
  ∀ space text rest, Space space → Spells value text → Follows rest →
    reader.run (space ++ (text ++ rest)) = ([], .ok (a, rest))

theorem Reader.Accepts.run_eq {reader : Reader ω α} {value : Json} {a : α}
    (h : reader.Accepts value a) {text rest : List Char}
    (htext : Spells value text) (hrest : Follows rest) :
    reader.run (text ++ rest) = ([], .ok (a, rest)) :=
  h [] text rest space_nil htext hrest

theorem Reader.Accepts.map {reader : Reader ω α} {value : Json} {a : α}
    (h : reader.Accepts value a) (f : α → β) :
    (do return f (← reader) : Reader ω β).Accepts value (f a) := by
  intro space text rest hspace htext hrest
  rw [run_bind_of_ok (h space text rest hspace htext hrest)]
  rfl

theorem readText_quoted {space : List Char} (hspace : Space space)
    (content : String) (rest : List Char) :
    readText (space ++ (quoted content ++ rest)) = .ok (content, rest) := by
  have hquoted : quoted content ++ rest =
      '"' :: (content.toList.flatMap escaped ++ '"' :: rest) := by
    simp [quoted]
  unfold readText
  rw [hquoted, skipSpace_append_cons hspace (by decide)]
  exact readString_escaped content rest

theorem accepts_readText (content : String) :
    (.scan readText : Reader ω String).Accepts (.string content) content := by
  intro space text rest hspace htext hrest
  cases htext
  exact Reader.run_scan_of_ok (readText_quoted hspace content rest)

theorem readNatural_write {bound n : Nat} (hbound : n ≤ bound)
    (hfits : n ≤ Literal.maxSignificand) {space rest : List Char}
    (hspace : Space space) (hrest : EndsNumber rest) :
    readNatural bound (space ++ (Numeral.write n ++ rest)) =
      .ok (n, rest) := by
  obtain ⟨c, more, hwrite⟩ :=
    List.exists_cons_of_ne_nil (Numeral.write_ne_nil n)
  have hdigit : isAsciiDigit c = true :=
    isAsciiDigit_of_mem_write (n := n) (by simp [hwrite])
  have hnumber := readNumber_write hfits hrest
  rw [hwrite, List.cons_append] at hnumber
  unfold readNatural readAnyNumber
  rw [hwrite, List.cons_append,
    skipSpace_append_cons hspace (isSpace_of_isAsciiDigit hdigit)]
  simp [hdigit, hnumber, hbound]

/-! ## Lists -/

theorem nextItem_close {space : List Char} (hspace : Space space)
    (first : Bool) (rest : List Char) :
    nextItem first (space ++ ']' :: rest) = .ok (false, ']' :: rest) := by
  unfold nextItem
  rw [skipSpace_append_cons hspace (by decide)]
  rfl

section Items

variable {value : Json} {space text : List Char}

theorem skipSpace_spells (hspace : Space space) (htext : Spells value text)
    (rest : List Char) :
    skipSpace (space ++ (text ++ rest)) = text ++ rest := by
  obtain ⟨c, more, rfl, hc, -⟩ := htext.exists_cons
  exact skipSpace_append_cons hspace hc _

theorem nextItem_first (hspace : Space space) (htext : Spells value text)
    (rest : List Char) :
    nextItem true (space ++ (text ++ rest)) = .ok (true, text ++ rest) := by
  have hskip := skipSpace_spells hspace htext rest
  obtain ⟨c, more, rfl, -, hc⟩ := htext.exists_cons
  unfold nextItem
  rw [hskip]
  simp

theorem nextItem_next {before : List Char} (hbefore : Space before)
    (hspace : Space space) (htext : Spells value text) (rest : List Char) :
    nextItem false (before ++ ',' :: (space ++ (text ++ rest))) =
      .ok (true, text ++ rest) := by
  have hskip := skipSpace_spells hspace htext rest
  obtain ⟨c, more, rfl, -, hc⟩ := htext.exists_cons
  rw [List.cons_append] at hskip ⊢
  unfold nextItem
  rw [skipSpace_append_cons hbefore (by decide)]
  simp [hskip, hc]

end Items

/-- Before an item the reader goes to the text that spells it. -/
theorem Listed.nextItem_eq {first : Bool} {value : Json} {values : List Json}
    {text : List Char} (h : Listed Spells ']' first (value :: values) text)
    (rest : List Char) :
    ∃ entry more, Spells value entry ∧ Listed Spells ']' false values more ∧
      nextItem first (text ++ rest) = .ok (true, entry ++ (more ++ rest)) := by
  cases h with
  | first hspace hentry hmore =>
      refine ⟨_, _, hentry, hmore, ?_⟩
      simpa using nextItem_first hspace hentry _
  | next hbefore hspace hentry hmore =>
      refine ⟨_, _, hentry, hmore, ?_⟩
      simpa using nextItem_next hbefore hspace hentry _

theorem Listed.nextItem_eq_close {first : Bool} {text : List Char}
    (h : Listed Spells ']' first [] text) (rest : List Char) :
    nextItem first (text ++ rest) = .ok (false, ']' :: rest) := by
  cases h with
  | close hspace => simpa using nextItem_close hspace first rest

/-- The items are read one after the other, and then the closing bracket. -/
theorem run_readItems {item : Reader ω α} {values : List Json} {results : List α}
    (hitems : List.Forall₂ item.Accepts values results) {rounds : Nat}
    (hrounds : values.length ≤ rounds) {first : Bool} {text : List Char}
    (htext : Listed Spells ']' first values text) (rest : List Char) :
    (readItems item (rounds + 1) first).run (text ++ rest) =
      ([], .ok (results, rest)) := by
  induction hitems generalizing rounds first text with
  | nil =>
      rw [readItems, Reader.run_bind_of_ok
        (Reader.run_scan_of_ok (htext.nextItem_eq_close rest))]
      rfl
  | @cons value a values results hvalue _ ih =>
      -- an item is left, so the rounds have not run out
      obtain ⟨rounds, rfl⟩ : ∃ n, rounds = n + 1 :=
        ⟨rounds - 1, by simp only [List.length_cons] at hrounds; omega⟩
      obtain ⟨entry, more, hentry, hmore, hnext⟩ := htext.nextItem_eq rest
      have hitem := hvalue.run_eq hentry (hmore.follows (.inl rfl) rest)
      rw [readItems, Reader.run_bind_of_ok (Reader.run_scan_of_ok hnext)]
      simp only [↓reduceIte]
      rw [Reader.run_bind_of_ok hitem,
        Reader.run_bind_of_ok (ih (by simpa using hrounds) hmore)]
      rfl

theorem accepts_readList {item : Reader ω α} {values : List Json}
    {results : List α} (h : List.Forall₂ item.Accepts values results) :
    (readList item).Accepts (.array values) results := by
  intro space text rest hspace htext hrest
  cases htext with
  | array hitems =>
      have hlength := hitems.length_lt
      unfold readList
      dsimp only
      rw [List.cons_append, skipSpace_append_cons hspace (by decide)]
      refine run_readItems h ?_ hitems rest
      simp only [List.length_append, Bool.toNat_true] at hlength ⊢
      omega

/-! ## Records -/

/-- Each member is accepted by the field of its key, which has not been given
before, and the drafts lead from the first to the last. -/
inductive Filled (fields : List (Field ω σ)) :
    σ → List (String × Json) → σ → Prop where
  | done (draft : σ) : Filled fields draft [] draft
  | member {draft next final : σ} {field : Field ω σ} {key : String}
      {value : Json} {members : List (String × Json)}
      (hfield : fields.find? (·.key == key) = some field)
      (hgiven : field.isGiven draft = false)
      (hvalue : (field.read draft).Accepts value next)
      (hmembers : Filled fields next members final) :
      Filled fields draft ((key, value) :: members) final

section Members

variable {member : String × Json} {space text : List Char}

theorem nextKey_close {space : List Char} (hspace : Space space)
    (first : Bool) (rest : List Char) :
    nextKey first (space ++ '\x7d' :: rest) = .ok (false, '\x7d' :: rest) := by
  unfold nextKey
  rw [skipSpace_append_cons hspace (by decide)]
  rfl

theorem skipSpace_keyed (hspace : Space space) (htext : Keyed Spells member text)
    (rest : List Char) :
    ∃ more, text ++ rest = '"' :: more ∧
      skipSpace (space ++ (text ++ rest)) = '"' :: more := by
  obtain ⟨more, rfl⟩ : ∃ more, text = '"' :: more := by
    cases htext
    exact ⟨_, rfl⟩
  exact ⟨more ++ rest, rfl, skipSpace_append_cons hspace (by decide) _⟩

theorem nextKey_first (hspace : Space space) (htext : Keyed Spells member text)
    (rest : List Char) :
    nextKey true (space ++ (text ++ rest)) = .ok (true, text ++ rest) := by
  obtain ⟨more, hmore, hskip⟩ := skipSpace_keyed hspace htext rest
  unfold nextKey
  rw [hskip, hmore]
  rfl

theorem nextKey_next {before : List Char} (hbefore : Space before)
    (hspace : Space space) (htext : Keyed Spells member text)
    (rest : List Char) :
    nextKey false (before ++ ',' :: (space ++ (text ++ rest))) =
      .ok (true, text ++ rest) := by
  obtain ⟨more, hmore, hskip⟩ := skipSpace_keyed hspace htext rest
  rw [hmore] at hskip ⊢
  unfold nextKey
  rw [skipSpace_append_cons hbefore (by decide)]
  simp [hskip]

end Members

theorem Listed.nextKey_eq {first : Bool} {member : String × Json}
    {members : List (String × Json)} {text : List Char}
    (h : Listed (Keyed Spells) '\x7d' first (member :: members) text)
    (rest : List Char) :
    ∃ entry more, Keyed Spells member entry ∧
      Listed (Keyed Spells) '\x7d' false members more ∧
      nextKey first (text ++ rest) = .ok (true, entry ++ (more ++ rest)) := by
  cases h with
  | first hspace hentry hmore =>
      refine ⟨_, _, hentry, hmore, ?_⟩
      simpa using nextKey_first hspace hentry _
  | next hbefore hspace hentry hmore =>
      refine ⟨_, _, hentry, hmore, ?_⟩
      simpa using nextKey_next hbefore hspace hentry _

theorem Listed.nextKey_eq_close {first : Bool} {text : List Char}
    (h : Listed (Keyed Spells) '\x7d' first [] text) (rest : List Char) :
    nextKey first (text ++ rest) = .ok (false, '\x7d' :: rest) := by
  cases h with
  | close hspace => simpa using nextKey_close hspace first rest

theorem colon_append {space : List Char} (hspace : Space space)
    (rest : List Char) : colon (space ++ ':' :: rest) = .ok ((), rest) := by
  unfold colon
  rw [skipSpace_append_cons hspace (by decide)]
  rfl

/-- A key and its value are read into the next draft. -/
theorem run_readMember {fields : List (Field ω σ)} {field : Field ω σ}
    {draft next : σ} {key : String} {value : Json} {before after text rest :
    List Char} (hfield : fields.find? (·.key == key) = some field)
    (hgiven : field.isGiven draft = false)
    (hvalue : (field.read draft).Accepts value next) (hbefore : Space before)
    (hafter : Space after) (htext : Spells value text) (hrest : Follows rest) :
    (readMember fields key draft).run
        (before ++ ':' :: (after ++ (text ++ rest))) =
      ([], .ok (next, rest)) := by
  unfold readMember
  rw [hfield]
  dsimp only
  rw [if_neg (by simp [hgiven]), Reader.run_bind_of_ok
    (Reader.run_scan_of_ok (colon_append hbefore _))]
  exact hvalue after text rest hafter htext hrest

theorem run_readMembers {fields : List (Field ω σ)} {draft final : σ}
    {members : List (String × Json)}
    (hmembers : Filled fields draft members final) {rounds : Nat}
    (hrounds : members.length ≤ rounds) {first : Bool} {text : List Char}
    (htext : Listed (Keyed Spells) '\x7d' first members text)
    (rest : List Char) :
    (readMembers fields (rounds + 1) first draft).run (text ++ rest) =
      ([], .ok (final, rest)) := by
  induction hmembers generalizing rounds first text with
  | done draft =>
      rw [readMembers, Reader.run_bind_of_ok
        (Reader.run_scan_of_ok (htext.nextKey_eq_close rest))]
      rfl
  | @member draft next final field key value members hfield hgiven hvalue _ ih =>
      obtain ⟨rounds, rfl⟩ : ∃ n, rounds = n + 1 :=
        ⟨rounds - 1, by simp only [List.length_cons] at hrounds; omega⟩
      obtain ⟨entry, more, hentry, hmore, hnext⟩ := htext.nextKey_eq rest
      rw [readMembers, Reader.run_bind_of_ok (Reader.run_scan_of_ok hnext)]
      simp only [↓reduceIte]
      cases hentry with
      | @member _ _ before after value hbefore hafter hspells =>
          have hkey : ∀ rest, readText (quoted key ++ rest) = .ok (key, rest) :=
            readText_quoted space_nil key
          have hread := run_readMember hfield hgiven hvalue hbefore hafter
            hspells (hmore.follows (.inr rfl) rest)
          simp only [List.append_assoc, List.cons_append]
          rw [Reader.run_bind_of_ok (Reader.run_scan_of_ok (hkey _)),
            Reader.run_bind_of_ok hread]
          exact ih (by simpa using hrounds) hmore

theorem accepts_readRecord {fields : List (Field ω σ)} {start final : σ}
    {complete? : σ → Option α} {members : List (String × Json)} {a : α}
    (hfilled : Filled fields start members final)
    (hcomplete : complete? final = some a) :
    (readRecord fields start complete?).Accepts (.object members) a := by
  intro space text rest hspace htext hrest
  cases htext with
  | object hmembers =>
      have hlength := hmembers.length_lt
      unfold readRecord
      rw [List.cons_append]
      refine (Reader.run_bind_of_ok
        (show _ = ([], Except.ok (final, rest)) from ?_)).trans ?_
      · dsimp only
        rw [skipSpace_append_cons hspace (by decide)]
        refine run_readMembers hfilled ?_ hmembers rest
        simp only [List.length_append, Bool.toNat_true] at hlength ⊢
        omega
      · rw [hcomplete]
        rfl

/-! ## What holds of every result -/

/-- Whatever the text, a result of the reader is a good one. -/
def Reader.Ensures (reader : Reader ω α) (good : α → Prop) : Prop :=
  ∀ text entries a rest, reader.run text = (entries, .ok (a, rest)) → good a

namespace Reader

theorem ensures_true (reader : Reader ω α) :
    reader.Ensures fun _ => True := by
  intro text entries a rest h
  trivial

theorem ensures_fail (fault : Fault) (good : α → Prop) :
    (fail fault : Reader ω α).Ensures good := by
  intro text entries a rest h
  cases h

theorem ensures_pure {good : α → Prop} {a : α} (h : good a) :
    (pure a : Reader ω α).Ensures good := by
  intro text entries b rest hrun
  cases hrun
  exact h

theorem Ensures.bind {first : Reader ω α} {next : α → Reader ω β}
    {middle : α → Prop} {good : β → Prop} (hfirst : first.Ensures middle)
    (hnext : ∀ a, middle a → (next a).Ensures good) :
    (first >>= next).Ensures good := by
  intro text entries b rest h
  change (Reader.bind first next).run text = _ at h
  unfold Reader.bind at h
  dsimp only at h
  split at h
  · cases h
  · rename_i hrun
    injection h with _ hafter
    exact hnext _ (hfirst _ _ _ _ hrun) _ _ b rest (Prod.ext rfl hafter)

end Reader

theorem ensures_readItems {item : Reader ω α} {good : α → Prop}
    (hitem : item.Ensures good) (rounds : Nat) (first : Bool) :
    (readItems item rounds first).Ensures fun items => ∀ a ∈ items, good a := by
  induction rounds generalizing first with
  | zero => exact Reader.ensures_fail _ _
  | succ rounds ih =>
      rw [readItems]
      refine (Reader.ensures_true _).bind fun more _ => ?_
      cases more with
      | false =>
          refine (Reader.ensures_true _).bind fun _ _ => ?_
          exact Reader.ensures_pure (by simp)
      | true =>
          refine hitem.bind fun head hhead => ?_
          refine (ih false).bind fun tail htail => ?_
          exact Reader.ensures_pure (List.forall_mem_cons.mpr ⟨hhead, htail⟩)

theorem ensures_readList {item : Reader ω α} {good : α → Prop}
    (hitem : item.Ensures good) :
    (readList item).Ensures fun items => ∀ a ∈ items, good a := by
  intro text entries items rest h
  unfold readList at h
  dsimp only at h
  split at h
  · exact ensures_readItems hitem _ _ _ _ _ _ h
  · cases h

section Fields

variable {fields : List (Field ω σ)} {good : σ → Prop}

theorem ensures_readMember
    (hfields : ∀ field ∈ fields, ∀ draft, good draft →
      (field.read draft).Ensures good) (key : String) {draft : σ}
    (hdraft : good draft) : (readMember fields key draft).Ensures good := by
  unfold readMember
  cases hfind : fields.find? (·.key == key) with
  | none =>
      refine (Reader.ensures_true _).bind fun _ _ => ?_
      refine (Reader.ensures_true _).bind fun _ _ => ?_
      exact Reader.ensures_pure hdraft
  | some field =>
      dsimp only
      split
      · exact Reader.ensures_fail _ _
      · refine (Reader.ensures_true _).bind fun _ _ => ?_
        exact hfields field (List.mem_of_find?_eq_some hfind) draft hdraft

theorem ensures_readMembers
    (hfields : ∀ field ∈ fields, ∀ draft, good draft →
      (field.read draft).Ensures good) (rounds : Nat) (first : Bool)
    {draft : σ} (hdraft : good draft) :
    (readMembers fields rounds first draft).Ensures good := by
  induction rounds generalizing first draft with
  | zero => exact Reader.ensures_fail _ _
  | succ rounds ih =>
      rw [readMembers]
      refine (Reader.ensures_true _).bind fun more _ => ?_
      cases more with
      | false =>
          refine (Reader.ensures_true _).bind fun _ _ => ?_
          exact Reader.ensures_pure hdraft
      | true =>
          refine (Reader.ensures_true _).bind fun key _ => ?_
          refine (ensures_readMember hfields key hdraft).bind
            fun next hnext => ?_
          exact ih false hnext

theorem ensures_readPositional
    (hfields : ∀ field ∈ fields, ∀ draft, good draft →
      (field.read draft).Ensures good) (first : Bool) {draft : σ}
    (hdraft : good draft) :
    (readPositional fields first draft).Ensures good := by
  induction fields generalizing first draft with
  | nil =>
      refine (Reader.ensures_true _).bind fun _ _ => ?_
      exact Reader.ensures_pure hdraft
  | cons field fields ih =>
      rw [readPositional]
      refine (Reader.ensures_true _).bind fun more _ => ?_
      cases more with
      | false =>
          refine (Reader.ensures_true _).bind fun _ _ => ?_
          exact Reader.ensures_pure hdraft
      | true =>
          refine (hfields field List.mem_cons_self draft hdraft).bind
            fun next hnext => ?_
          exact ih (fun other hother =>
            hfields other (List.mem_cons_of_mem _ hother)) false hnext

variable (good) in
/-- What every field keeps of a draft holds of a complete record. -/
theorem ensures_readRecord {start : σ} {complete? : σ → Option α}
    {result : α → Prop} (hstart : good start)
    (hfields : ∀ field ∈ fields, ∀ draft, good draft →
      (field.read draft).Ensures good)
    (hcomplete : ∀ draft a, good draft → complete? draft = some a →
      result a) :
    (readRecord fields start complete?).Ensures result := by
  unfold readRecord
  refine Reader.Ensures.bind (show Reader.Ensures _ good from ?_)
    fun draft hdraft => ?_
  · intro text entries draft rest h
    dsimp only at h
    split at h
    · exact ensures_readPositional hfields true hstart _ _ _ _ h
    · exact ensures_readMembers hfields _ true hstart _ _ _ _ h
    · cases h
  · cases hdone : complete? draft with
    | none => exact Reader.ensures_fail _ _
    | some a => exact Reader.ensures_pure (hcomplete draft a hdraft hdone)

end Fields

/-! ## Whole texts -/

theorem wholeText_of_accepts {reader : Reader ω α} {value : Json} {a : α}
    (h : reader.Accepts value a) {text : List Char} (htext : Spells value text) :
    wholeText reader (String.ofList text) = ([], .ok a) := by
  have hrun := h.run_eq htext follows_nil
  rw [List.append_nil] at hrun
  unfold wholeText
  rw [String.toList_ofList, hrun]
  rfl

theorem good_of_wholeText {reader : Reader ω α} {good : α → Prop}
    (h : reader.Ensures good) {text : String} {entries : List ω} {a : α}
    (hread : wholeText reader text = (entries, .ok a)) : good a := by
  unfold wholeText at hread
  split at hread
  · cases hread
  · rename_i hrun
    split at hread
    · cases hread
      exact h _ _ _ _ hrun
    · cases hread

end ModuleRecovery.Json
