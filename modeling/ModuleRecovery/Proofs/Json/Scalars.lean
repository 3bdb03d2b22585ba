import ModuleRecovery.Json.Record
import Mathlib.Tactic

/-!
# Strings and numerals read back

A string is written between quotes with some characters escaped, and a number is
written by its digits.  Reading the written form gives the string or the number
and stops where the form ends, whatever follows the closing quote, and whatever
follows the digits as long as it cannot be a part of the number.
-/

namespace ModuleRecovery

namespace Text

/-! ## Numerals -/

theorem isAsciiDigit_of_mem_write {n : Nat} {c : Char}
    (h : c ∈ Numeral.write n) : isAsciiDigit c = true :=
  Nat.isDigit_of_mem_toDigits (by decide) (by decide) h

theorem digitValue_digitChar {n : Nat} (h : n < 10) :
    digitValue n.digitChar = n :=
  Nat.toNat_digitChar_sub_48_of_lt_ten h

theorem isAsciiDigit_digitChar {n : Nat} (h : n < 10) :
    isAsciiDigit n.digitChar = true :=
  Nat.isDigit_digitChar.trans (decide_eq_true h)

namespace Numeral

theorem write_ne_nil (n : Nat) : write n ≠ [] :=
  Nat.toDigits_ne_nil

theorem write_of_lt {n : Nat} (h : n < 10) : write n = [n.digitChar] :=
  Nat.toDigits_of_lt_base h

theorem write_of_le {n : Nat} (h : 10 ≤ n) :
    write n = write (n / 10) ++ [(n % 10).digitChar] :=
  Nat.toDigits_of_base_le (by decide) h

theorem eq_zero_of_head?_write {n : Nat} (h : (write n).head? = some '0') :
    n = 0 := by
  induction n using Nat.strong_induction_on with
  | h n ih =>
      by_cases hsmall : n < 10
      · rw [write_of_lt hsmall] at h
        simpa using h
      · rw [write_of_le (by omega), List.head?_append_of_ne_nil _
          (write_ne_nil _)] at h
        have hzero := ih (n / 10) (by omega) h
        omega

theorem step_digitChar {bound value n : Nat} (hn : n < 10)
    (hbound : 10 * value + n ≤ bound) :
    step bound value n.digitChar = .ok (10 * value + n) := by
  unfold step
  rw [isAsciiDigit_digitChar hn, digitValue_digitChar hn]
  simp [Nat.not_lt.mpr hbound]

theorem read_write {bound n : Nat} (h : n ≤ bound) :
    read bound (write n) = .ok n := by
  have hfold : (write n).foldlM (step bound) 0 = .ok n := by
    induction n using Nat.strong_induction_on with
    | h n ih =>
        by_cases hsmall : n < 10
        · rw [write_of_lt hsmall, List.foldlM_cons,
            step_digitChar hsmall (by omega)]
          simp [pure, Except.pure, bind, Except.bind]
        · rw [write_of_le (by omega), List.foldlM_append,
            ih (n / 10) (by omega) (by omega)]
          change (step bound (n / 10) _).bind _ = _
          rw [step_digitChar (Nat.mod_lt n (by decide)) (by omega)]
          simp [pure, Except.pure, Except.bind]
          omega
  unfold read
  rw [if_neg (by simpa using write_ne_nil n), hfold]

end Numeral

end Text

namespace Json

open Text

/-! ## Numbers -/

/-- The text does not begin with anything that a number can go on with. -/
def EndsNumber (text : List Char) : Prop :=
  ∀ c ∈ text.head?, isAsciiDigit c = false ∧ c ≠ '.' ∧ c ≠ 'e' ∧ c ≠ 'E'

namespace Literal

theorem absorb_append {significand value : Nat} {digits more : List Char}
    (h : absorb significand digits = (value, [])) :
    absorb significand (digits ++ more) = absorb value more := by
  induction digits generalizing significand with
  | nil =>
      cases h
      rfl
  | cons c digits ih =>
      rw [absorb] at h
      rw [List.cons_append, absorb]
      split at h
      · rename_i hfits
        rw [if_pos hfits]
        exact ih h
      · cases h

theorem absorb_digitChar {significand n : Nat} (hn : n < 10)
    (hfits : 10 * significand + n ≤ maxSignificand) :
    absorb significand [n.digitChar] = (10 * significand + n, []) := by
  simp [absorb, digitValue_digitChar hn, hfits]

theorem absorb_write {n : Nat} (h : n ≤ maxSignificand) :
    absorb 0 (Numeral.write n) = (n, []) := by
  induction n using Nat.strong_induction_on with
  | h n ih =>
      by_cases hsmall : n < 10
      · rw [Numeral.write_of_lt hsmall, absorb_digitChar hsmall (by omega)]
        simp
      · rw [Numeral.write_of_le (by omega),
          absorb_append (ih (n / 10) (by omega) (by omega)),
          absorb_digitChar (Nat.mod_lt n (by decide)) (by omega)]
        congr 1
        omega

theorem digits_append {whole rest : List Char}
    (hwhole : ∀ c ∈ whole, isAsciiDigit c = true) (hrest : EndsNumber rest) :
    digits (whole ++ rest) = (whole, rest) := by
  have hstop : rest.takeWhile isAsciiDigit = [] ∧
      rest.dropWhile isAsciiDigit = rest := by
    cases rest with
    | nil => simp
    | cons c rest => simp [(hrest c rfl).1]
  unfold digits
  rw [List.span_eq_takeWhile_dropWhile, List.takeWhile_append_of_pos hwhole,
    List.dropWhile_append_of_pos hwhole, hstop.1, hstop.2, List.append_nil]

theorem readUnsigned_write {cut : Fault} {n : Nat} {rest : List Char}
    (hrest : EndsNumber rest) :
    readUnsigned cut false (Numeral.write n ++ rest) =
      .ok (⟨false, Numeral.write n, [], none⟩, rest) := by
  have hdigits : digits1 cut (Numeral.write n ++ rest) =
      .ok (Numeral.write n, rest) := by
    rw [← digits_append (fun _ => isAsciiDigit_of_mem_write) hrest]
    obtain ⟨c, more, hwrite⟩ :=
      List.exists_cons_of_ne_nil (Numeral.write_ne_nil n)
    have hc : isAsciiDigit c = true :=
      isAsciiDigit_of_mem_write (n := n) (by simp [hwrite])
    simp [digits1, hwrite, hc]
  have hwhole : readWhole cut (Numeral.write n ++ rest) =
      .ok (Numeral.write n, rest) := by
    unfold readWhole
    rw [hdigits]
    -- of all numerals only that of zero begins with a zero
    refine if_neg ?_
    intro hzero
    simp only [Bool.and_eq_true, decide_eq_true_eq, bne_iff_ne] at hzero
    rw [Numeral.eq_zero_of_head?_write hzero.1] at hzero
    exact hzero.2 rfl
  have hfraction : readFraction cut rest = .ok ([], rest) := by
    unfold readFraction
    split
    · exact ((hrest '.' rfl).2.1 rfl).elim
    · rfl
  have hexponent : readExponent cut rest = .ok (none, rest) := by
    cases rest with
    | nil => rfl
    | cons c rest => simp [readExponent, (hrest c rfl).2.2]
  unfold readUnsigned
  rw [hwhole]
  simp [bind, Except.bind, hfraction, hexponent, pure, Except.pure]

end Literal

theorem readNumber_write {n : Nat} (h : n ≤ Literal.maxSignificand)
    {rest : List Char} (hrest : EndsNumber rest) :
    readNumber (Numeral.write n ++ rest) = .ok (.integer n, rest) := by
  have hread : Literal.read .truncated (Numeral.write n ++ rest) =
      .ok (⟨false, Numeral.write n, [], none⟩, rest) := by
    unfold Literal.read
    split
    · rename_i tail heq
      obtain ⟨c, more, hwrite⟩ :=
        List.exists_cons_of_ne_nil (Numeral.write_ne_nil n)
      have hc : isAsciiDigit c = true :=
        isAsciiDigit_of_mem_write (n := n) (by simp [hwrite])
      rw [hwrite, List.cons_append] at heq
      cases heq
      cases hc
    · exact Literal.readUnsigned_write hrest
  unfold readNumber
  rw [hread]
  simp [Literal.number?, Literal.integer?, Literal.absorb_write h]

/-! ## Strings -/

theorem hexValue?_hexDigit {value : Nat} (h : value < 16) :
    hexValue? (hexDigit value) = some value := by
  have hall : ∀ v : Fin 16, hexValue? (hexDigit v.val) = some v.val := by
    decide
  exact hall ⟨value, h⟩

theorem hexUnit_hexDigit {code : Nat} (h : code < 0x20) (rest : List Char) :
    hexUnit ('0' :: '0' :: hexDigit (code / 16) :: hexDigit (code % 16) ::
      rest) = .ok (code, rest) := by
  have hzero : hexValue? '0' = some 0 := by decide
  have hvalue : hexValue4? '0' '0' (hexDigit (code / 16))
      (hexDigit (code % 16)) = some code := by
    unfold hexValue4?
    rw [hzero, hexValue?_hexDigit (by omega), hexValue?_hexDigit (by omega)]
    simp
    omega
  simp [hexUnit, hvalue]

theorem characters_escape {read rest more : List Char} {c : Char}
    (h : escape rest = .ok (c, more)) :
    characters read ('\\' :: rest) = characters (c :: read) more := by
  rw [characters]
  simp only [Char.reduceEq, ↓reduceIte]
  split
  · rename_i hfault
    rw [h] at hfault
    cases hfault
  · rename_i hread
    rw [h] at hread
    cases hread
    rfl

/-- A character is read back from its written form. -/
theorem characters_escaped (read : List Char) (c : Char) (more : List Char) :
    characters read (escaped c ++ more) = characters (c :: read) more := by
  unfold escaped
  -- letters for seven characters, digits for the other control characters
  split_ifs with hquote hbackslash hb ht hn hf hr hcontrol
  · subst hquote
    exact characters_escape rfl
  · subst hbackslash
    exact characters_escape rfl
  · subst hb
    exact characters_escape rfl
  · subst ht
    exact characters_escape rfl
  · subst hn
    exact characters_escape rfl
  · subst hf
    exact characters_escape rfl
  · subst hr
    exact characters_escape rfl
  · refine characters_escape ?_
    have hlow : isLowSurrogate c.toNat = false := by
      simp [isLowSurrogate]
      omega
    have hhigh : isHighSurrogate c.toNat = false := by
      simp [isHighSurrogate]
      omega
    simp [escape, hexUnit_hexDigit hcontrol, hlow, hhigh]
  · rw [List.singleton_append, characters]
    simp [hquote, hbackslash, hcontrol]

theorem characters_flatMap_escaped (content read rest : List Char) :
    characters read (content.flatMap escaped ++ '"' :: rest) =
      .ok (read.reverse ++ content, rest) := by
  induction content generalizing read with
  | nil =>
      rw [List.flatMap_nil, List.nil_append, characters]
      simp
  | cons c content ih =>
      rw [List.flatMap_cons, List.append_assoc, characters_escaped, ih]
      simp

theorem readString_escaped (content : String) (rest : List Char) :
    readString (content.toList.flatMap escaped ++ '"' :: rest) =
      .ok (content, rest) := by
  unfold readString
  rw [characters_flatMap_escaped]
  simp

/-- Quotes, backslashes and control characters are escaped, and all else stands
for itself. -/
theorem escaped_eq_singleton_iff (c : Char) :
    escaped c = [c] ↔ c ≠ '"' ∧ c ≠ '\\' ∧ 0x20 ≤ c.toNat := by
  constructor
  · intro h
    refine ⟨?_, ?_, ?_⟩
    · rintro rfl
      simp [escaped] at h
    · rintro rfl
      simp [escaped] at h
    · by_contra hcontrol
      unfold escaped at h
      split_ifs at h <;> simp_all
  · rintro ⟨hquote, hbackslash, hplain⟩
    have hother : ∀ d : Char, d.toNat < 0x20 → c ≠ d := by
      rintro d hd rfl
      omega
    simp [escaped, hquote, hbackslash, Nat.not_lt.mpr hplain,
      hother '\x08' (by decide), hother '\t' (by decide),
      hother '\n' (by decide), hother '\x0c' (by decide),
      hother '\r' (by decide)]

end Json

end ModuleRecovery
