/-
**The words in a line of kernel code.**

* `isWord`, `isNumeral` — the texts of identifiers and of numerals. A numeral may have a sign, a
  fraction, an exponent with a sign of its own and letters behind it.
* `Reader`, `wordsFrom` — reads characters one by one, with what was read last: the beginning of a word,
  a part of a numeral, or neither.
* `identifiers` — the words of a text. The letters of a numeral are none.
* `identifiers_word`, `identifiers_numeral` — a word is read as itself, a numeral as nothing.
* `identifiers_separated` — the words on both sides of a separator are read apart.
-/

import Mathlib.Data.List.Basic

namespace TunedKernel.Text

/-! ### Words and numerals -/

/-- The characters that a word starts with. -/
def isLetter (c : Char) : Bool := c.isAlpha || c == '_'

/-- No digit is a letter. -/
theorem isLetter_eq_false {c : Char} (digit : c.isDigit) : isLetter c = false := by
  rw [isLetter, Bool.or_eq_false_iff, beq_eq_false_iff_ne]
  constructor
  · delta Char.isAlpha Char.isUpper Char.isLower Char.isDigit at *
    grind
  · rintro rfl
    exact absurd digit (by decide)

/-- The characters of a word. -/
def isWordChar (c : Char) : Bool := isLetter c || c.isDigit

/-- An identifier: a letter or an underscore, then letters, digits and underscores. -/
def isWord (s : String) : Bool :=
  match s.toList with
  | [] => false
  | first :: rest => isLetter first && rest.all isWordChar

/-- The characters of a numeral behind its first digit; a sign stands only right behind the letter
of an exponent, which is what the last character was if `exponent` holds. -/
def isNumeralTail (exponent : Bool) : List Char → Bool
  | [] => true
  | c :: rest =>
    if isWordChar c || c == '.' then isNumeralTail ("eEpP".toList.contains c) rest
    else exponent && (c == '+' || c == '-') && isNumeralTail false rest

/-- A numeral without a sign: a digit, with or without a point before it, and its tail. -/
def isUnsignedNumeral : List Char → Bool
  | [] => false
  | '.' :: first :: rest => first.isDigit && isNumeralTail false rest
  | first :: rest => first.isDigit && isNumeralTail false rest

/-- A numeral. -/
def isNumeral (s : String) : Bool :=
  match s.toList with
  | '+' :: rest | '-' :: rest => isUnsignedNumeral rest
  | rest => isUnsignedNumeral rest

/-! ### Reading -/

/-- What the characters read last are a part of. -/
inductive Reader where
  | between
  /-- A word, of which this much is read. -/
  | word (read : List Char)
  /-- A numeral, whose last character is the letter of an exponent or not. -/
  | numeral (exponent : Bool)

/-- The words that are read from here on. -/
def wordsFrom : Reader → List Char → List String
  | .word read, [] => [String.ofList read]
  | _, [] => []
  | .between, c :: rest =>
    if isLetter c then wordsFrom (.word [c]) rest
    else if c.isDigit then wordsFrom (.numeral false) rest
    else wordsFrom .between rest
  | .word read, c :: rest =>
    if isWordChar c then wordsFrom (.word (read ++ [c])) rest
    else String.ofList read :: wordsFrom .between rest
  | .numeral exponent, c :: rest =>
    if isWordChar c || c == '.' then wordsFrom (.numeral ("eEpP".toList.contains c)) rest
    else if exponent && (c == '+' || c == '-') then wordsFrom (.numeral false) rest
    else wordsFrom .between rest

/-- The words of a text. -/
def identifiers (s : String) : List String := wordsFrom .between s.toList

/-- The characters behind which everything is read anew. -/
def isBreak (c : Char) : Bool := !isWordChar c && c != '.' && c != '+' && c != '-'

theorem wordsFrom_append_break (reader : Reader) (before : List Char) {c : Char} (after : List Char)
    (breaks : isBreak c) :
    wordsFrom reader (before ++ c :: after) = wordsFrom reader before ++ wordsFrom .between after := by
  simp only [isBreak, Bool.and_eq_true, Bool.not_eq_true', bne_iff_ne] at breaks
  obtain ⟨⟨⟨noWord, noPoint⟩, noPlus⟩, noMinus⟩ := breaks
  have noLetter : isLetter c = false := (Bool.or_eq_false_iff.mp noWord).1
  have noDigit : c.isDigit = false := (Bool.or_eq_false_iff.mp noWord).2
  induction before generalizing reader with
  | nil => cases reader <;> simp [wordsFrom, noWord, noLetter, noDigit, noPoint, noPlus, noMinus]
  | cons d rest ih =>
    cases reader with
    | between =>
      simp only [List.cons_append, wordsFrom]
      split
      · exact ih _
      · split <;> exact ih _
    | word read =>
      simp only [List.cons_append, wordsFrom]
      split
      · exact ih _
      · rw [ih, List.cons_append]
    | numeral exponent =>
      simp only [List.cons_append, wordsFrom]
      split
      · exact ih _
      · split <;> exact ih _

theorem wordsFrom_word (read : List Char) {rest : List Char} (all : rest.all isWordChar) :
    wordsFrom (.word read) rest = [String.ofList (read ++ rest)] := by
  induction rest generalizing read with
  | nil => rw [wordsFrom, List.append_nil]
  | cons c rest ih =>
    rw [List.all_cons, Bool.and_eq_true] at all
    rw [wordsFrom, if_pos all.1, ih _ all.2, List.append_assoc, List.singleton_append]

theorem wordsFrom_numeral {exponent : Bool} {rest : List Char} (tail : isNumeralTail exponent rest) :
    wordsFrom (.numeral exponent) rest = [] := by
  induction rest generalizing exponent with
  | nil => rfl
  | cons c rest ih =>
    rw [isNumeralTail] at tail
    rw [wordsFrom]
    split_ifs at tail with inside
    · rw [if_pos inside, ih tail]
    · rw [Bool.and_eq_true] at tail
      rw [if_neg inside, if_pos tail.1, ih tail.2]

/-! ### The words of a text -/

/-- A word is read as itself. -/
theorem identifiers_word {x : String} (word : isWord x) : identifiers x = [x] := by
  unfold isWord at word
  unfold identifiers
  cases chars : x.toList with
  | nil => simp [chars] at word
  | cons first rest =>
    rw [chars, Bool.and_eq_true] at word
    rw [wordsFrom, if_pos word.1, wordsFrom_word _ word.2, List.singleton_append, ← chars,
      String.ofList_toList]

/-- A word is read up to a point. -/
theorem identifiers_word_point {x : String} (word : isWord x) (rest : String) :
    identifiers (x ++ "." ++ rest) = x :: identifiers rest := by
  have go (read chars after : List Char) (all : chars.all isWordChar) :
      wordsFrom (.word read) (chars ++ '.' :: after) =
        String.ofList (read ++ chars) :: wordsFrom .between after := by
    induction chars generalizing read with
    | nil => rw [List.nil_append, wordsFrom, if_neg (by decide), List.append_nil]
    | cons c chars ih =>
      rw [List.all_cons, Bool.and_eq_true] at all
      rw [List.cons_append, wordsFrom, if_pos all.1, ih _ all.2, List.append_assoc,
        List.singleton_append]
  unfold isWord at word
  unfold identifiers
  rw [String.toList_append, String.toList_append, List.append_assoc]
  cases chars : x.toList with
  | nil => simp [chars] at word
  | cons first others =>
    rw [chars, Bool.and_eq_true] at word
    rw [List.cons_append, wordsFrom, if_pos word.1]
    refine (go _ others _ word.2).trans ?_
    rw [List.singleton_append, ← chars, String.ofList_toList]
    rfl

theorem wordsFrom_unsignedNumeral {chars : List Char} (numeral : isUnsignedNumeral chars) :
    wordsFrom .between chars = [] := by
  have digit {first : Char} {rest : List Char} (is : first.isDigit)
      (tail : isNumeralTail false rest) : wordsFrom .between (first :: rest) = [] := by
    rw [wordsFrom, isLetter_eq_false is, if_neg Bool.false_ne_true, if_pos is, wordsFrom_numeral tail]
  unfold isUnsignedNumeral at numeral
  split at numeral
  · cases numeral
  · rw [Bool.and_eq_true] at numeral
    rw [wordsFrom, if_neg (by decide), if_neg (by decide), digit numeral.1 numeral.2]
  · rw [Bool.and_eq_true] at numeral
    exact digit numeral.1 numeral.2

/-- Nothing is read from a numeral. -/
theorem identifiers_numeral {s : String} (numeral : isNumeral s) : identifiers s = [] := by
  unfold isNumeral at numeral
  unfold identifiers
  split at numeral
  · next chars =>
    rw [chars, wordsFrom, if_neg (by decide), if_neg (by decide), wordsFrom_unsignedNumeral numeral]
  · next chars =>
    rw [chars, wordsFrom, if_neg (by decide), if_neg (by decide), wordsFrom_unsignedNumeral numeral]
  · exact wordsFrom_unsignedNumeral numeral

/-! ### Numbers -/

theorem isNumeralTail_of_digits {digits rest : List Char} (all : digits.all Char.isDigit)
    (tail : isNumeralTail false rest) : isNumeralTail false (digits ++ rest) := by
  induction digits with
  | nil => exact tail
  | cons c digits ih =>
    rw [List.all_cons, Bool.and_eq_true] at all
    have noExponent : "eEpP".toList.contains c = false := by
      rw [List.contains_eq_mem, decide_eq_false_iff_not]
      intro exponent
      have letters : "eEpP".toList.all (fun d => !d.isDigit) := by decide
      have letter := List.all_eq_true.mp letters c exponent
      rw [all.1] at letter
      cases letter
    rw [List.cons_append, isNumeralTail, isWordChar, all.1, Bool.or_true, Bool.true_or, if_pos rfl,
      noExponent]
    exact ih all.2

/-- A number is a numeral, also with the mark of an unsigned constant behind it. -/
theorem isNumeral_toString_append (n : Nat) {mark : String} (tail : isNumeralTail false mark.toList) :
    isNumeral (toString n ++ mark) := by
  have digits : (toString n).toList.all Char.isDigit := by
    rw [show (toString n).toList = Nat.toDigits 10 n from Nat.toList_repr, List.all_eq_true]
    exact fun c member => Nat.isDigit_of_mem_toDigits (by decide) (by decide) member
  unfold isNumeral isUnsignedNumeral
  rw [String.toList_append]
  cases chars : (toString n).toList with
  | nil =>
    rw [show (toString n).toList = Nat.toDigits 10 n from Nat.toList_repr] at chars
    exact absurd chars Nat.toDigits_ne_nil
  | cons c rest =>
    rw [chars, List.all_cons, Bool.and_eq_true] at digits
    have goes : (c.isDigit && isNumeralTail false (rest ++ mark.toList)) = true := by
      rw [Bool.and_eq_true]
      exact ⟨digits.1, isNumeralTail_of_digits digits.2 tail⟩
    have other (d : Char) (no : d.isDigit = false) : c ≠ d := by
      rintro rfl
      exact Bool.false_ne_true (no.symm.trans digits.1)
    rw [List.cons_append]
    split
    · next same => exact absurd (List.cons.inj same).1 (other '+' (by decide))
    · next same => exact absurd (List.cons.inj same).1 (other '-' (by decide))
    · split
      · next same => cases same
      · next same => exact absurd (List.cons.inj same).1 (other '.' (by decide))
      · next same => exact (List.cons.inj same).1 ▸ (List.cons.inj same).2 ▸ goes

theorem identifiers_toString (n : Nat) : identifiers (toString n) = [] := by
  have numeral : isNumeral (toString n ++ "") := isNumeral_toString_append n rfl
  rw [String.append_empty] at numeral
  exact identifiers_numeral numeral

/-! ### Separators -/

/-- A separator: a character that breaks off what stands before it, and no beginnings of words or
numerals. -/
def isSeparator (s : String) : Bool :=
  match s.toList with
  | [] => false
  | c :: rest => isBreak c && rest.all fun d => !isWordChar d

theorem wordsFrom_between {chars after : List Char} (all : chars.all fun d => !isWordChar d) :
    wordsFrom .between (chars ++ after) = wordsFrom .between after := by
  induction chars with
  | nil => rfl
  | cons c rest ih =>
    rw [List.all_cons, Bool.and_eq_true, Bool.not_eq_true', isWordChar, Bool.or_eq_false_iff] at all
    rw [List.cons_append, wordsFrom, all.1.1, all.1.2, if_neg Bool.false_ne_true,
      if_neg Bool.false_ne_true, ih all.2]

/-- The words on both sides of a separator are read apart. -/
theorem identifiers_separated (before after : String) {separator : String}
    (separates : isSeparator separator) :
    identifiers (before ++ separator ++ after) = identifiers before ++ identifiers after := by
  unfold isSeparator at separates
  unfold identifiers
  rw [String.toList_append, String.toList_append, List.append_assoc]
  cases chars : separator.toList with
  | nil => simp [chars] at separates
  | cons c rest =>
    rw [chars, Bool.and_eq_true] at separates
    rw [List.cons_append, wordsFrom_append_break _ _ _ separates.1, wordsFrom_between separates.2]

/-- A separator at the end adds no word. -/
theorem identifiers_closed (before : String) {separator : String}
    (separates : isSeparator separator) : identifiers (before ++ separator) = identifiers before := by
  have read := identifiers_separated before "" separates
  rwa [String.append_empty, show identifiers "" = [] from rfl, List.append_nil] at read

/-- Signs and brackets in front add no word. -/
theorem identifiers_opened (after : String) {signs : String}
    (none : signs.toList.all fun d => !isWordChar d) : identifiers (signs ++ after) = identifiers after := by
  unfold identifiers
  rw [String.toList_append, wordsFrom_between none]

end TunedKernel.Text
