import ModuleRecovery.Proofs.Document.Signatures
import Mathlib.Data.List.TakeWhile

/-!
# The grammar of call signatures

Reading trims a text, takes the name up to a blank or a colon, expects a colon and
takes all the rest for digits.  The texts that are read so are those of one
grammar: a name and digits around a colon, with blanks wherever they can stand.
No character of a name is a blank or a colon and no digit is a blank, so a text
has at most one such form.  The form does not say from which script the digits
come nor how large a number they denote.  A numeral is read from the left up to
the first fault, so it is too large if the ASCII digits it begins with already
are, and otherwise a digit of another script is the fault.
-/

namespace ModuleRecovery

open Text

namespace Text

/-! ## Blanks and digits -/

theorem isBlank_of_isDecimalDigit {c : Char} (h : isDecimalDigit c = true) :
    isBlank c = false := by
  -- the blocks of ten digits lie between the blanks
  have hblocks : ∀ first ∈ digitZeros,
      (0x20 < first ∧ first + 9 < 0x85) ∨
        (0xA0 < first ∧ first + 9 < 0x1680) ∨
        (0x1680 < first ∧ first + 9 < 0x2000) ∨ 0x3000 < first := by
    decide
  obtain ⟨first, hfirst, hcode⟩ := List.any_eq_true.mp h
  have hblock := hblocks first hfirst
  simp only [Bool.and_eq_true, decide_eq_true_eq] at hcode
  simp [isBlank]
  omega

theorem trimEnd_append {text blanks : List Char}
    (h : ∀ c ∈ blanks, isBlank c = true) :
    trimEnd (text ++ blanks) = trimEnd text := by
  unfold trimEnd
  rw [List.reverse_append, List.dropWhile_append_of_pos]
  intro c hc
  exact h c (List.mem_reverse.mp hc)

theorem trim_append {before text after : List Char}
    (hbefore : ∀ c ∈ before, isBlank c = true)
    (hafter : ∀ c ∈ after, isBlank c = true) (htext : text ≠ [])
    (hfirst : ∀ c ∈ text.head?, isBlank c = false)
    (hlast : ∀ c ∈ text.getLast?, isBlank c = false) :
    trim (before ++ (text ++ after)) = text := by
  have hhead : ∀ c ∈ (text ++ after).head?, isBlank c = false := by
    rwa [List.head?_append_of_ne_nil _ htext]
  unfold trim
  rw [List.dropWhile_append_of_pos hbefore, dropWhile_isBlank_of_head? hhead,
    trimEnd_append hafter]
  unfold trimEnd
  rw [dropWhile_isBlank_of_head?, List.reverse_reverse]
  rwa [List.head?_reverse]

/-- A text is what is trimmed off at its front, the rest, and what is trimmed off
at its end. -/
theorem exists_trim_eq (text : List Char) :
    ∃ before after, text = before ++ (trim text ++ after) ∧
      (∀ c ∈ before, isBlank c = true) ∧ ∀ c ∈ after, isBlank c = true := by
  let rest := text.dropWhile isBlank
  refine ⟨text.takeWhile isBlank,
    (rest.reverse.takeWhile isBlank).reverse, ?_, ?_, ?_⟩
  · have hrest : trim text ++ (rest.reverse.takeWhile isBlank).reverse =
        rest := by
      unfold trim trimEnd
      rw [← List.reverse_append, List.takeWhile_append_dropWhile,
        List.reverse_reverse]
    rw [hrest, List.takeWhile_append_dropWhile]
  · exact List.all_eq_true.mp List.all_takeWhile
  · intro c hc
    exact List.all_eq_true.mp List.all_takeWhile c (List.mem_reverse.mp hc)

theorem takeWhile_append_of_head? {p : Char → Bool} {front rest : List Char}
    (hfront : ∀ c ∈ front, p c = true) (hrest : ∀ c ∈ rest.head?, p c = false) :
    (front ++ rest).takeWhile p = front := by
  rw [List.takeWhile_append_of_pos hfront]
  cases rest with
  | nil => simp
  | cons c rest => simp [hrest c rfl]

theorem dropWhile_append_of_head? {p : Char → Bool} {front rest : List Char}
    (hfront : ∀ c ∈ front, p c = true) (hrest : ∀ c ∈ rest.head?, p c = false) :
    (front ++ rest).dropWhile p = rest := by
  rw [List.dropWhile_append_of_pos hfront]
  cases rest with
  | nil => rfl
  | cons c rest => simp [hrest c rfl]

/-! ## Numerals -/

namespace Numeral

/-- The number that digits denote after those of `start`. -/
def valueFrom (start : ℕ) (digits : List Char) : ℕ :=
  digits.foldl (fun value c => 10 * value + digitValue c) start

def value (digits : List Char) : ℕ :=
  valueFrom 0 digits

theorem le_valueFrom (start : ℕ) (digits : List Char) :
    start ≤ valueFrom start digits := by
  induction digits generalizing start with
  | nil => exact le_rfl
  | cons c digits ih =>
      have hrest := ih (10 * start + digitValue c)
      unfold valueFrom at hrest ⊢
      rw [List.foldl_cons]
      omega

theorem foldlM_step {bound start : ℕ} (hstart : start ≤ bound)
    (text : List Char) :
    text.foldlM (step bound) start =
      if bound < valueFrom start (text.takeWhile isAsciiDigit) then
        .error .tooLarge
      else if text.all isAsciiDigit then .ok (valueFrom start text)
      else .error .invalidDigit := by
  induction text generalizing start with
  | nil => simp [valueFrom, hstart, pure, Except.pure]
  | cons c text ih =>
      rw [List.foldlM_cons]
      by_cases hc : isAsciiDigit c = true
      · rw [List.takeWhile_cons_of_pos hc, List.all_cons, hc, Bool.true_and]
        change (step bound start c).bind _ =
          if bound < valueFrom (10 * start + digitValue c)
            (text.takeWhile isAsciiDigit) then _ else _
        by_cases hbound : bound < 10 * start + digitValue c
        · have hlarge := hbound.trans_le
            (le_valueFrom _ (text.takeWhile isAsciiDigit))
          simp [step, hc, hbound, hlarge, Except.bind]
        · rw [step, hc, if_neg (by simp), if_neg hbound]
          exact ih (Nat.le_of_not_lt hbound)
      · rw [List.takeWhile_cons_of_neg hc, List.all_cons]
        simp [step, hc, valueFrom, Nat.not_lt.mpr hstart, bind, Except.bind]

theorem read_eq (bound : ℕ) {text : List Char} (h : text ≠ []) :
    read bound text =
      if bound < value (text.takeWhile isAsciiDigit) then .error .tooLarge
      else if text.all isAsciiDigit then .ok (value text)
      else .error .invalidDigit := by
  unfold read
  rw [if_neg (by simpa using h), foldlM_step (Nat.zero_le bound)]
  rfl

end Numeral

end Text

namespace CallSignature

/-! ## The form of a text -/

/-- A text taken apart into a name and digits around a colon, with blanks at the
two ends and around the colon. -/
@[ext] structure Form (text : String) where
  before : List Char
  name : List Char
  beforeColon : List Char
  afterColon : List Char
  digits : List Char
  after : List Char
  spells : text.toList =
    before ++ name ++ beforeColon ++ ':' :: afterColon ++ digits ++ after
  blank : ∀ c ∈ before ++ beforeColon ++ afterColon ++ after,
    isBlank c = true
  named : name ≠ []
  nameChars : ∀ c ∈ name, isBlank c = false ∧ c ≠ ':'
  counted : digits ≠ []
  decimal : ∀ c ∈ digits, isDecimalDigit c = true

namespace Form

variable {text : String} (form : Form text)

/-- The text without the blanks at its ends. -/
def core : List Char :=
  form.name ++ (form.beforeColon ++ ':' :: (form.afterColon ++ form.digits))

theorem toList_eq : text.toList = form.before ++ (form.core ++ form.after) := by
  rw [form.spells]
  simp [core]

theorem head?_core {c : Char} (h : c ∈ form.core.head?) :
    isBlank c = false := by
  rw [core, List.head?_append_of_ne_nil _ form.named] at h
  exact (form.nameChars c (List.mem_of_mem_head? h)).1

theorem getLast?_core {c : Char} (h : c ∈ form.core.getLast?) :
    isBlank c = false := by
  have hend : form.core = (form.name ++ form.beforeColon ++ ':' ::
      form.afterColon) ++ form.digits := by
    simp [core]
  rw [hend, List.getLast?_append_of_ne_nil _ form.counted] at h
  exact isBlank_of_isDecimalDigit (form.decimal c (List.mem_of_mem_getLast? h))

theorem trim_eq : trim text.toList = form.core := by
  rw [toList_eq]
  apply trim_append
  · intro c hc
    exact form.blank c (by simp [hc])
  · intro c hc
    exact form.blank c (by simp [hc])
  · simp [core]
  · exact fun c => form.head?_core
  · exact fun c => form.getLast?_core

theorem before_eq : text.toList.takeWhile isBlank = form.before := by
  rw [toList_eq]
  apply takeWhile_append_of_head?
  · intro c hc
    exact form.blank c (by simp [hc])
  · intro c hc
    rw [List.head?_append_of_ne_nil _ (by simp [core])] at hc
    exact form.head?_core hc

/-- The name ends where a blank or the colon begins. -/
theorem name_eq :
    form.core.takeWhile isNameChar = form.name ∧
      form.core.dropWhile isNameChar =
        form.beforeColon ++ ':' :: (form.afterColon ++ form.digits) := by
  have hname : ∀ c ∈ form.name, isNameChar c = true := by
    intro c hc
    simp [isNameChar, form.nameChars c hc]
  have hrest : ∀ c ∈ (form.beforeColon ++
      ':' :: (form.afterColon ++ form.digits)).head?, isNameChar c = false := by
    intro c hc
    cases hblanks : form.beforeColon with
    | nil =>
        obtain rfl : ':' = c := by simpa [hblanks] using hc
        rfl
    | cons b blanks =>
        obtain rfl : b = c := by simpa [hblanks] using hc
        have hb : isBlank b = true := form.blank b (by simp [hblanks])
        simp [isNameChar, hb]
  exact ⟨takeWhile_append_of_head? hname hrest,
    dropWhile_append_of_head? hname hrest⟩

theorem beforeColon_eq :
    (form.beforeColon ++ ':' :: (form.afterColon ++ form.digits)).takeWhile
        isBlank = form.beforeColon ∧
      (form.beforeColon ++ ':' :: (form.afterColon ++ form.digits)).dropWhile
        isBlank = ':' :: (form.afterColon ++ form.digits) := by
  have hblank : ∀ c ∈ form.beforeColon, isBlank c = true := by
    intro c hc
    exact form.blank c (by simp [hc])
  have hcolon : ∀ c ∈ (':' :: (form.afterColon ++ form.digits)).head?,
      isBlank c = false := by
    rintro c ⟨⟩
    rfl
  exact ⟨takeWhile_append_of_head? hblank hcolon,
    dropWhile_append_of_head? hblank hcolon⟩

theorem digits_eq :
    (form.afterColon ++ form.digits).takeWhile isBlank = form.afterColon ∧
      (form.afterColon ++ form.digits).dropWhile isBlank = form.digits := by
  have hblank : ∀ c ∈ form.afterColon, isBlank c = true := by
    intro c hc
    exact form.blank c (by simp [hc])
  have hdigits : ∀ c ∈ form.digits.head?, isBlank c = false := by
    intro c hc
    exact isBlank_of_isDecimalDigit (form.decimal c (List.mem_of_mem_head? hc))
  exact ⟨takeWhile_append_of_head? hblank hdigits,
    dropWhile_append_of_head? hblank hdigits⟩

/-- A text has one form at most. -/
theorem unique (form other : Form text) : form = other := by
  have hcore : form.core = other.core := form.trim_eq.symm.trans other.trim_eq
  have hbefore : form.before = other.before :=
    form.before_eq.symm.trans other.before_eq
  have hafter : form.after = other.after := by
    have hwhole := form.toList_eq.symm.trans other.toList_eq
    rw [hbefore, hcore] at hwhole
    exact List.append_cancel_left (List.append_cancel_left hwhole)
  have hname : form.name = other.name := by
    rw [← form.name_eq.1, hcore, other.name_eq.1]
  have hcolon := form.name_eq.2.symm
  rw [hcore, other.name_eq.2] at hcolon
  have hbeforeColon : form.beforeColon = other.beforeColon := by
    rw [← form.beforeColon_eq.1, hcolon, other.beforeColon_eq.1]
  have hrest : ':' :: (form.afterColon ++ form.digits) =
      ':' :: (other.afterColon ++ other.digits) := by
    rw [← form.beforeColon_eq.2, hcolon, other.beforeColon_eq.2]
  have hrest := List.tail_eq_of_cons_eq hrest
  have hafterColon : form.afterColon = other.afterColon := by
    rw [← form.digits_eq.1, hrest, other.digits_eq.1]
  have hdigits : form.digits = other.digits := by
    rw [← form.digits_eq.2, hrest, other.digits_eq.2]
  exact Form.ext hbefore hname hbeforeColon hafterColon hdigits hafter

/-- Of a text with the form, the digits decide what is read. -/
theorem read_eq :
    read text = (readArity form.digits).map fun arity =>
      ⟨String.ofList form.name, arity⟩ := by
  have hall : form.digits.all isDecimalDigit = true :=
    List.all_eq_true.mpr form.decimal
  unfold read readTrimmed
  rw [form.trim_eq]
  simp only [form.name_eq, form.beforeColon_eq, form.digits_eq, hall,
    List.isEmpty_eq_false_iff.mpr form.named,
    List.isEmpty_eq_false_iff.mpr form.counted]
  cases readArity form.digits <;> rfl

end Form

theorem nonempty_form_of_read {text : String}
    (h : read text ≠ .error .form) : Nonempty (Form text) := by
  obtain ⟨before, after, htext, hbefore, hafter⟩ := exists_trim_eq text.toList
  unfold read readTrimmed at h
  generalize trim text.toList = core at htext h
  dsimp only at h
  split at h
  · rename_i rest hrest
    split at h
    · exact (h rfl).elim
    · rename_i hform
      simp only [Bool.or_eq_true, not_or, Bool.not_eq_true,
        Bool.not_eq_false', List.isEmpty_eq_false_iff] at hform
      obtain ⟨⟨hnamed, hcounted⟩, hdecimal⟩ := hform
      have hcore : core.takeWhile isNameChar ++
          ((core.dropWhile isNameChar).takeWhile isBlank ++
            ':' :: (rest.takeWhile isBlank ++ rest.dropWhile isBlank)) =
              core := by
        rw [List.takeWhile_append_dropWhile, ← hrest,
          List.takeWhile_append_dropWhile, List.takeWhile_append_dropWhile]
      have hspan : ∀ {p : Char → Bool} {list : List Char},
          ∀ c ∈ list.takeWhile p, p c = true :=
        List.all_eq_true.mp List.all_takeWhile
      exact
        ⟨{ before := before
           name := core.takeWhile isNameChar
           beforeColon := (core.dropWhile isNameChar).takeWhile isBlank
           afterColon := rest.takeWhile isBlank
           digits := rest.dropWhile isBlank
           after := after
           spells := by
             rw [← hcore] at htext
             simpa using htext
           blank := by
             intro c hc
             simp only [List.mem_append] at hc
             rcases hc with ((hc | hc) | hc) | hc
             · exact hbefore c hc
             · exact hspan c hc
             · exact hspan c hc
             · exact hafter c hc
           named := hnamed
           nameChars := by
             intro c hc
             simpa [isNameChar] using hspan c hc
           counted := hcounted
           decimal := List.all_eq_true.mp hdecimal }⟩
  · exact (h rfl).elim

/-! ## What is read -/

theorem readArity_eq {digits : List Char} (h : digits ≠ []) :
    readArity digits =
      if maxArity < Numeral.value (digits.takeWhile isAsciiDigit) then
        .error .tooLarge
      else if digits.all isAsciiDigit then
        .ok (Numeral.value digits).toUInt32
      else .error .invalidDigit := by
  unfold readArity
  rw [Numeral.read_eq maxArity h]
  split_ifs <;> rfl

namespace Form

variable {text : String}

/-- The name is that of the signature, and the digits are ASCII digits and denote
its arity. -/
structure Denotes (form : Form text) (signature : CallSignature) : Prop where
  name : signature.name.toList = form.name
  ascii : ∀ c ∈ form.digits, isAsciiDigit c = true
  value : Numeral.value form.digits = signature.arity.toNat

theorem takeWhile_digits {digits : List Char}
    (h : ∀ c ∈ digits, isAsciiDigit c = true) :
    digits.takeWhile isAsciiDigit = digits :=
  List.takeWhile_eq_self_iff.mpr h

theorem Denotes.read_eq {form : Form text} {signature : CallSignature}
    (h : form.Denotes signature) : read text = .ok signature := by
  have hbound : ¬ maxArity < Numeral.value form.digits := by
    rw [h.value]
    exact Nat.not_lt.mpr (Nat.le_of_lt_succ signature.arity.toNat_lt)
  rw [form.read_eq, readArity_eq form.counted, takeWhile_digits h.ascii,
    if_neg hbound, if_pos (List.all_eq_true.mpr h.ascii), h.value, ← h.name]
  simp [Except.map]

theorem denotes_of_read {form : Form text} {signature : CallSignature}
    (h : read text = .ok signature) : form.Denotes signature := by
  rw [form.read_eq, readArity_eq form.counted] at h
  split_ifs at h with hlarge hascii
  · cases h
  · have hascii := List.all_eq_true.mp hascii
    rw [takeWhile_digits hascii] at hlarge
    cases h
    refine ⟨String.toList_ofList, hascii, ?_⟩
    have hlt : Numeral.value form.digits < 2 ^ 32 := by
      unfold maxArity at hlarge
      omega
    exact (UInt32.toNat_ofNat_of_lt hlt).symm
  · cases h

/-- A form that denotes no signature is read up to its first fault. -/
theorem read_eq_error (form : Form text)
    (h : ¬ ∃ signature, form.Denotes signature) :
    read text = .error
      (if 4294967295 < Numeral.value (form.digits.takeWhile isAsciiDigit) then
        .tooLarge
      else .invalidDigit) := by
  have hread := form.read_eq
  rw [readArity_eq form.counted] at hread
  change read text = .error (if maxArity < _ then _ else _)
  by_cases hlarge :
      maxArity < Numeral.value (form.digits.takeWhile isAsciiDigit)
  · rw [if_pos hlarge] at hread ⊢
    exact hread
  · rw [if_neg hlarge] at hread ⊢
    split_ifs at hread
    · exact (h ⟨_, denotes_of_read hread⟩).elim
    · exact hread

theorem read_ne_form (form : Form text) : read text ≠ .error .form := by
  rw [form.read_eq, readArity_eq form.counted]
  split_ifs <;> simp [Except.map]

end Form

theorem take_toList_append {front : String} {n : ℕ}
    (h : n ≤ front.toList.length) (rest : String) :
    (front ++ rest).toList.take n = front.toList.take n := by
  rw [String.toList_append, List.take_append_of_le_length h]

theorem Fault.message_injective (text : String) :
    Function.Injective (Fault.message text) := by
  -- the ninth character tells a fault of the form from one of the number
  have hform : (message text .form).toList.take 9 = "Invalid c".toList := by
    unfold message
    rw [String.append_assoc, take_toList_append (by decide)]
    decide
  have hnumber : ∀ rest,
      ("Invalid parameter count in '" ++ text ++ rest).toList.take 9 =
        "Invalid p".toList := by
    intro rest
    rw [String.append_assoc, take_toList_append (by decide)]
    decide
  have happart : ∀ rest,
      message text .form ≠ "Invalid parameter count in '" ++ text ++ rest := by
    intro rest heq
    rw [heq, hnumber rest] at hform
    exact absurd hform (by decide)
  have hends : message text .invalidDigit ≠ message text .tooLarge := by
    intro heq
    exact absurd ((String.append_right_inj _).mp heq) (by decide)
  intro a b h
  cases a with
  | form =>
      cases b with
      | form => rfl
      | invalidDigit => exact (happart _ h).elim
      | tooLarge => exact (happart _ h).elim
  | invalidDigit =>
      cases b with
      | form => exact (happart _ h.symm).elim
      | invalidDigit => rfl
      | tooLarge => exact (hends h).elim
  | tooLarge =>
      cases b with
      | form => exact (happart _ h.symm).elim
      | invalidDigit => exact (hends h.symm).elim
      | tooLarge => rfl

/-- A text is read as a signature exactly if it has the form of one, which it has
in one way at most, with ASCII digits for a number that fits.  With other digits
or too large a number it has the form but a fault in the number, and every other
text a fault in the form.  The written form of a signature is read as the
signature, so what was read can be written and read again. -/
theorem read_grammar (text : String) :
    (∀ form other : Form text, form = other) ∧
      (∀ signature, read text = .ok signature ↔
        ∃ form : Form text, form.Denotes signature) ∧
      (∀ form : Form text, (¬ ∃ signature, form.Denotes signature) →
        read text = .error
          (if 4294967295 <
              Numeral.value (form.digits.takeWhile isAsciiDigit) then
            .tooLarge
          else .invalidDigit)) ∧
      (IsEmpty (Form text) ↔ read text = .error .form) ∧
      Function.Injective (Fault.message text) ∧
      (∀ signature : CallSignature, signature.WellNamed →
        read signature.toText = .ok signature) ∧
      ∀ signature, read text = .ok signature →
        read signature.toText = .ok signature := by
  refine ⟨Form.unique, ?_, Form.read_eq_error, ?_, Fault.message_injective text,
    fun _ => read_toText, fun _ h => read_toText (wellNamed_of_read h)⟩
  · intro signature
    constructor
    · intro h
      obtain ⟨form⟩ := @nonempty_form_of_read text (by simp [h])
      exact ⟨form, Form.denotes_of_read h⟩
    · rintro ⟨form, hform⟩
      exact hform.read_eq
  · constructor
    · intro hempty
      by_contra hread
      exact (not_isEmpty_iff.mpr (nonempty_form_of_read hread)) hempty
    · intro hread
      exact ⟨fun form => form.read_ne_form hread⟩

/-- Blanks and leading zeros are read over, and a number that is too large is
found before a digit of another script behind it. -/
theorem read_grammar_two_texts :
    read " save\t: 007\n" = .ok ⟨"save", 7⟩ ∧
      read "f:4294967296٣" = .error .tooLarge := by
  let padded : Form " save\t: 007\n" :=
    { before := [' ']
      name := ['s', 'a', 'v', 'e']
      beforeColon := ['\t']
      afterColon := [' ']
      digits := ['0', '0', '7']
      after := ['\n']
      spells := rfl
      blank := List.all_eq_true.mp rfl
      named := by simp
      nameChars := by simp [isBlank]
      counted := by simp
      decimal := List.all_eq_true.mp rfl }
  let large : Form "f:4294967296٣" :=
    { before := []
      name := ['f']
      beforeColon := []
      afterColon := []
      digits := ['4', '2', '9', '4', '9', '6', '7', '2', '9', '6', '٣']
      after := []
      spells := rfl
      blank := List.all_eq_true.mp rfl
      named := by simp
      nameChars := by simp [isBlank]
      counted := by simp
      decimal := List.all_eq_true.mp rfl }
  have hpadded : padded.Denotes ⟨"save", 7⟩ :=
    ⟨rfl, List.all_eq_true.mp rfl, rfl⟩
  have hlarge : ¬ ∃ signature, large.Denotes signature := by
    rintro ⟨signature, hdenotes⟩
    have hdigit := hdenotes.ascii '٣' (by simp [large])
    exact absurd hdigit (by decide)
  exact ⟨((read_grammar _).2.1 _).mpr ⟨padded, hpadded⟩,
    (read_grammar _).2.2.1 large hlarge⟩

end CallSignature

end ModuleRecovery
