/-
**The lexemes of kernel code.**

A text is taken apart by the rule of the longest match: a lexeme goes on as long as it stays one.

* `signs`, `isLexeme` — the signs of expressions, and what a lexeme is: a word, a numeral without a
  sign or a sign. Every beginning of a lexeme is one, so the longest match is found character by
  character.
* `lexemesFrom`, `lexemes` — the lexemes of a text, if it is made of lexemes and gaps; a comment is
  none.
* `lexemes_word`, `lexemes_numeral` — a word and a numeral are a lexeme each.
* `lexemes_delimited` — brackets, commas and gaps keep apart what stands on both sides of them.
* `lexemes_minus` — a sign in front of a word, a numeral or a bracket stays alone.
-/

import TunedKernel.Proofs.Source.Words

namespace TunedKernel.Text

/-! ### Lexemes -/

/-- The signs of expressions. -/
def signs : List String :=
  ["[", "]", "(", ")", ".", "->", "++", "--", "&", "*", "+", "-", "~", "!", "/", "%", "<<", ">>", "<", ">",
    "<=", ">=", "==", "!=", "^", "|", "&&", "||", "?", ":", "=", "*=", "/=", "%=", "+=", "-=", "<<=", ">>=",
    "&=", "^=", "|=", ","]

/-- Whether characters are a word, a numeral or a sign. -/
def isLexeme (cs : List Char) : Bool :=
  isWord (String.ofList cs) || isUnsignedNumeral cs || signs.any fun s => s.toList == cs

/-- The characters that separate lexemes. -/
def isGap (c : Char) : Bool := c == ' ' || c == '\t' || c == '\n' || c == '\x0b' || c == '\x0c'

/-- Whether a comment begins behind what is read. -/
def opensComment (read : List Char) (c : Char) : Bool := read == ['/'] && (c == '/' || c == '*')

/-- The lexeme that is read, if any. -/
def flush (read : List Char) : List String := if read = [] then [] else [String.ofList read]

/-- The lexemes from here on, when some characters of the first one are read. -/
def lexemesFrom (read : List Char) : List Char → Option (List String)
  | [] => some (flush read)
  | c :: rest =>
    if read ≠ [] ∧ isLexeme (read ++ [c]) then lexemesFrom (read ++ [c]) rest
    else if opensComment read c then none
    else if isGap c then (lexemesFrom [] rest).map (flush read ++ ·)
    else if isLexeme [c] then (lexemesFrom [c] rest).map (flush read ++ ·)
    else none

/-- The lexemes of a text. -/
def lexemes (s : String) : Option (List String) := lexemesFrom [] s.toList

example : lexemes "a+++b<<=.5e-3f" = some ["a", "++", "+", "b", "<<=", ".5e-3f"] := by decide +kernel

/-! ### Reading on -/

/-- Nothing is read: a lexeme begins, unless there is a gap. -/
theorem lexemesFrom_start (c : Char) (rest : List Char) :
    lexemesFrom [] (c :: rest) =
      if isGap c then lexemesFrom [] rest else if isLexeme [c] then lexemesFrom [c] rest else none := by
  have plain : opensComment [] c = false := rfl
  have none (later : Option (List String)) : later.map (flush [] ++ ·) = later := by
    cases later <;> rfl
  rw [lexemesFrom, if_neg fun read => read.1 rfl, plain, if_neg Bool.false_ne_true, none, none]

/-- A character that does not continue the lexeme begins a new one. -/
theorem lexemesFrom_break {read : List Char} {c : Char} (some : read ≠ [])
    (ends : isLexeme (read ++ [c]) = false) (plain : opensComment read c = false) (rest : List Char) :
    lexemesFrom read (c :: rest) = (lexemesFrom [] (c :: rest)).map (String.ofList read :: ·) := by
  have apart : ¬(read ≠ [] ∧ isLexeme (read ++ [c])) := by
    rw [ends]
    exact fun both => Bool.false_ne_true both.2
  have flushed : flush read = [String.ofList read] := if_neg some
  rw [lexemesFrom, if_neg apart, plain, if_neg Bool.false_ne_true, flushed, lexemesFrom_start]
  split_ifs <;> rfl

/-! ### Words and numerals -/

/-- What stays a lexeme with every further character is one lexeme. -/
theorem lexemesFrom_whole {read rest : List Char} (some : read ≠ [])
    (stays : ∀ front back, rest = front ++ back → front ≠ [] → isLexeme (read ++ front)) :
    lexemesFrom read rest = .some [String.ofList (read ++ rest)] := by
  induction rest generalizing read with
  | nil => rw [lexemesFrom, flush, if_neg some, List.append_nil]
  | cons c rest ih =>
    have next : isLexeme (read ++ [c]) := stays [c] rest rfl (List.cons_ne_nil _ _)
    have more : ∀ front back, rest = front ++ back → front ≠ [] →
        isLexeme (read ++ [c] ++ front) := by
      intro front back split _
      rw [List.append_assoc]
      exact stays (c :: front) back (by rw [split, List.cons_append]) (List.cons_ne_nil _ _)
    have longer : read ++ [c] ≠ [] := List.append_ne_nil_of_right_ne_nil _ (List.cons_ne_nil _ _)
    rw [lexemesFrom, if_pos ⟨some, next⟩, ih longer more, List.append_assoc, List.singleton_append]

/-- A text whose beginnings are lexemes is one lexeme. -/
theorem lexemes_whole {s : String} (some : s.toList ≠ [])
    (every : ∀ front back, s.toList = front ++ back → front ≠ [] → isLexeme front)
    (solid : ∀ c ∈ s.toList.head?, isGap c = false) : lexemes s = .some [s] := by
  unfold lexemes
  cases chars : s.toList with
  | nil => exact absurd chars some
  | cons c rest =>
    rw [chars] at every solid
    have first : isLexeme [c] := every [c] rest rfl (List.cons_ne_nil _ _)
    have stays : ∀ front back, rest = front ++ back → front ≠ [] → isLexeme ([c] ++ front) :=
      fun front back split _ =>
        every (c :: front) back (by rw [split, List.cons_append]) (List.cons_ne_nil _ _)
    rw [lexemesFrom_start, solid c rfl, if_neg Bool.false_ne_true, if_pos first,
      lexemesFrom_whole (List.cons_ne_nil _ _) stays, List.singleton_append, ← chars, String.ofList_toList]

theorem isGap_eq_false {c : Char} (inside : isWordChar c ∨ c = '.' ∨ c = '+' ∨ c = '-') :
    isGap c = false := by
  rw [Bool.eq_false_iff]
  intro gap
  have among : c ∈ " \t\n\x0b\x0c".toList := by simpa [isGap, or_assoc] using gap
  have none : ∀ d ∈ " \t\n\x0b\x0c".toList, ¬(isWordChar d ∨ d = '.' ∨ d = '+' ∨ d = '-') := by
    simp [isWordChar, isLetter, Char.isDigit]
  exact none c among inside

theorem isWord_beginning {front back : List Char} (word : isWord (String.ofList (front ++ back)))
    (some : front ≠ []) : isWord (String.ofList front) := by
  unfold isWord at *
  rw [String.toList_ofList] at *
  cases front with
  | nil => exact absurd rfl some
  | cons c front =>
    rw [List.cons_append, Bool.and_eq_true, List.all_append, Bool.and_eq_true] at word
    exact Bool.and_eq_true _ _ ▸ ⟨word.1, word.2.1⟩

theorem isWord_chars {s : String} (word : isWord s) : ∀ c ∈ s.toList, isWordChar c := by
  unfold isWord at word
  split at word
  · cases word
  · next first rest chars =>
    rw [Bool.and_eq_true, List.all_eq_true] at word
    rw [chars, List.forall_mem_cons]
    exact ⟨by rw [isWordChar, word.1, Bool.true_or], word.2⟩

/-- A word is a lexeme. -/
theorem lexemes_word {s : String} (word : isWord s) : lexemes s = some [s] := by
  refine lexemes_whole ?_ (fun front back chars some => ?_) fun c head => ?_
  · intro none
    rw [isWord, none] at word
    cases word
  · have first : isWord (String.ofList front) := by
      rw [← String.ofList_toList (s := s), chars] at word
      exact isWord_beginning word some
    rw [isLexeme, first, Bool.true_or, Bool.true_or]
  · exact isGap_eq_false (Or.inl (isWord_chars word c (List.mem_of_mem_head? head)))

theorem isNumeralTail_beginning {exponent : Bool} {front back : List Char}
    (tail : isNumeralTail exponent (front ++ back)) : isNumeralTail exponent front := by
  induction front generalizing exponent with
  | nil => rfl
  | cons c front ih =>
    rw [List.cons_append, isNumeralTail] at tail
    rw [isNumeralTail]
    split_ifs at tail with inside
    · rw [if_pos inside]
      exact ih tail
    · rw [Bool.and_eq_true] at tail
      rw [if_neg inside, tail.1, Bool.true_and]
      exact ih tail.2

theorem isNumeralTail_chars {exponent : Bool} {cs : List Char} (tail : isNumeralTail exponent cs) :
    ∀ c ∈ cs, isWordChar c ∨ c = '.' ∨ c = '+' ∨ c = '-' := by
  induction cs generalizing exponent with
  | nil => nofun
  | cons c cs ih =>
    rw [isNumeralTail] at tail
    rw [List.forall_mem_cons]
    split_ifs at tail with inside
    · refine ⟨?_, ih tail⟩
      rw [Bool.or_eq_true, beq_iff_eq] at inside
      exact inside.imp_right Or.inl
    · rw [Bool.and_eq_true, Bool.and_eq_true, Bool.or_eq_true, beq_iff_eq, beq_iff_eq] at tail
      exact ⟨Or.inr (Or.inr tail.1.2), ih tail.2⟩

/-- How a numeral without a sign begins: with a digit, or with a point and a digit. -/
theorem isUnsignedNumeral_cases {cs : List Char} (numeral : isUnsignedNumeral cs) :
    ∃ (point : List Char) (digit : Char) (rest : List Char), cs = point ++ digit :: rest ∧
      (point = [] ∨ point = ['.']) ∧ digit.isDigit ∧ isNumeralTail false rest := by
  unfold isUnsignedNumeral at numeral
  split at numeral
  · cases numeral
  · next digit rest =>
    rw [Bool.and_eq_true] at numeral
    exact ⟨['.'], digit, rest, rfl, Or.inr rfl, numeral⟩
  · next digit rest _ =>
    rw [Bool.and_eq_true] at numeral
    exact ⟨[], digit, rest, rfl, Or.inl rfl, numeral⟩

theorem isUnsignedNumeral_digit {digit : Char} {rest : List Char} (first : digit.isDigit)
    (tail : isNumeralTail false rest) : isUnsignedNumeral (digit :: rest) := by
  unfold isUnsignedNumeral
  split
  · next same => cases same
  · next same =>
    cases same
    exact absurd first (by decide)
  · next same =>
    cases same
    rw [first, tail, Bool.and_true]

/-- A number is a numeral without a sign, also with the mark of an unsigned constant behind it. -/
theorem isUnsignedNumeral_toString_append (n : Nat) {mark : String}
    (tail : isNumeralTail false mark.toList) : isUnsignedNumeral (toString n ++ mark).toList := by
  have digits : ∀ c ∈ Nat.toDigits 10 n, c.isDigit :=
    fun c member => Nat.isDigit_of_mem_toDigits (by decide) (by decide) member
  rw [String.toList_append, show (toString n).toList = Nat.toDigits 10 n from Nat.toList_repr]
  cases chars : Nat.toDigits 10 n with
  | nil => exact absurd chars Nat.toDigits_ne_nil
  | cons digit rest =>
    rw [chars, List.forall_mem_cons] at digits
    exact isUnsignedNumeral_digit digits.1 (isNumeralTail_of_digits (List.all_eq_true.mpr digits.2) tail)

theorem isUnsignedNumeral_chars {cs : List Char} (numeral : isUnsignedNumeral cs) :
    ∀ c ∈ cs, isWordChar c ∨ c = '.' ∨ c = '+' ∨ c = '-' := by
  obtain ⟨point, digit, rest, rfl, front, first, tail⟩ := isUnsignedNumeral_cases numeral
  intro c member
  rcases List.mem_append.mp member with before | behind
  · rcases front with rfl | rfl
    · cases before
    · exact Or.inr (Or.inl (List.mem_singleton.mp before))
  · rcases List.mem_cons.mp behind with rfl | inside
    · exact Or.inl (by rw [isWordChar, first, Bool.or_true])
    · exact isNumeralTail_chars tail c inside

/-- A numeral without a sign is a lexeme. -/
theorem lexemes_numeral {s : String} (numeral : isUnsignedNumeral s.toList) : lexemes s = some [s] := by
  refine lexemes_whole ?_ (fun front back chars some => ?_) fun c head => ?_
  · intro none
    rw [none] at numeral
    cases numeral
  · obtain ⟨point, digit, rest, text, begins, first, tail⟩ := isUnsignedNumeral_cases numeral
    rw [chars] at text
    have digits {others : List Char} (same : others ++ back = rest) :
        isUnsignedNumeral (digit :: others) :=
      isUnsignedNumeral_digit first (isNumeralTail_beginning (same ▸ tail))
    have numeral : front = ['.'] ∨ isUnsignedNumeral front := by
      rcases begins with rfl | rfl
      · cases front with
        | nil => exact absurd rfl some
        | cons c others =>
          obtain ⟨rfl, same⟩ := List.cons.inj text
          exact Or.inr (digits same)
      · match front, some, text with
        | [c], _, text => exact Or.inl (by rw [(List.cons.inj text).1])
        | c :: d :: others, _, text =>
          obtain ⟨rfl, behind⟩ := List.cons.inj text
          obtain ⟨rfl, same⟩ := List.cons.inj behind
          have others : isNumeralTail false (others ++ back) := by rwa [show others ++ back = rest from same]
          exact Or.inr (by rw [isUnsignedNumeral, first, isNumeralTail_beginning others, Bool.and_true])
    rcases numeral with rfl | numeral
    · decide
    · rw [isLexeme, numeral, Bool.or_true, Bool.true_or]
  · exact isGap_eq_false (isUnsignedNumeral_chars numeral c (List.mem_of_mem_head? head))

/-! ### Delimiters -/

/-- The characters that no lexeme of several characters holds. -/
def isDelimiter (c : Char) : Bool := isGap c || "()[],".toList.contains c

/-- The lexemes that a delimiter stands for. -/
def delimiter (c : Char) : List String := if isGap c then [] else [String.ofList [c]]

theorem mem_of_isDelimiter {c : Char} (delimits : isDelimiter c) :
    c ∈ " \t\n\x0b\x0c()[],".toList := by
  simpa [isDelimiter, isGap, or_assoc] using delimits

/-- No lexeme of several characters holds a delimiter. -/
theorem isLexeme_eq_false {cs : List Char} {c : Char} (member : c ∈ cs) (several : 1 < cs.length)
    (delimits : isDelimiter c) : isLexeme cs = false := by
  have outside : ¬(isWordChar c ∨ c = '.' ∨ c = '+' ∨ c = '-') := by
    have none : ∀ d ∈ " \t\n\x0b\x0c()[],".toList,
        ¬(isWordChar d ∨ d = '.' ∨ d = '+' ∨ d = '-') := by simp [isWordChar, isLetter, Char.isDigit]
    exact none c (mem_of_isDelimiter delimits)
  have signs : ∀ s ∈ signs, s.toList.length = 1 ∨ s.toList.any isDelimiter = false := by
    decide +kernel
  rw [isLexeme, Bool.or_eq_false_iff, Bool.or_eq_false_iff, Bool.eq_false_iff, Bool.eq_false_iff,
    List.any_eq_false]
  refine ⟨⟨fun word => ?_, fun numeral => ?_⟩, fun s found same => ?_⟩
  · exact outside (Or.inl (isWord_chars word c (by rwa [String.toList_ofList])))
  · exact outside (isUnsignedNumeral_chars numeral c member)
  · rw [beq_iff_eq] at same
    rcases signs s found with single | plain
    · rw [same] at single
      omega
    · rw [same] at plain
      exact List.any_eq_false.mp plain c member delimits

/-- Behind a delimiter everything is read anew. -/
theorem lexemesFrom_delimiter {c : Char} (delimits : isDelimiter c) (rest : List Char) :
    lexemesFrom [c] rest = (lexemesFrom [] rest).map (String.ofList [c] :: ·) := by
  have noSlash : ([c] == ['/']) = false := by
    rw [beq_eq_false_iff_ne]
    rintro ⟨⟩
    exact absurd delimits (by decide)
  cases rest with
  | nil => rfl
  | cons d rest =>
    have apart : isLexeme ([c] ++ [d]) = false :=
      isLexeme_eq_false List.mem_cons_self (Nat.lt_succ_self 1) delimits
    exact lexemesFrom_break (List.cons_ne_nil _ _) apart (by rw [opensComment, noSlash, Bool.false_and]) rest

/-- A delimiter keeps apart what stands on both sides of it. -/
theorem lexemesFrom_delimited {c : Char} (delimits : isDelimiter c) (read before after : List Char) :
    lexemesFrom read (before ++ c :: after) = (lexemesFrom read before).bind fun front =>
      (lexemesFrom [] after).map (front ++ delimiter c ++ ·) := by
  have start : lexemesFrom [] (c :: after) = (lexemesFrom [] after).map (delimiter c ++ ·) := by
    rw [lexemesFrom_start, delimiter]
    cases gap : isGap c with
    | true => exact Option.map_id_apply.symm
    | false =>
      have single : isLexeme [c] := by
        have every : " \t\n\x0b\x0c()[],".toList.all fun d => isGap d || isLexeme [d] := by decide
        have lexeme := List.all_eq_true.mp every c (mem_of_isDelimiter delimits)
        rwa [gap, Bool.false_or] at lexeme
      rw [if_neg Bool.false_ne_true, if_neg Bool.false_ne_true, if_pos single,
        lexemesFrom_delimiter delimits]
      rfl
  induction before generalizing read with
  | nil =>
    rw [List.nil_append, lexemesFrom, Option.bind_some]
    by_cases some : read = []
    · rw [some, start]
      rfl
    · have ends : isLexeme (read ++ [c]) = false := by
        refine isLexeme_eq_false (List.mem_append_right read List.mem_cons_self) ?_ delimits
        rw [List.length_append, List.length_singleton]
        exact Nat.succ_lt_succ (List.length_pos_iff.mpr some)
      have plain : opensComment read c = false := by
        have none : ∀ d ∈ " \t\n\x0b\x0c()[],".toList, (d == '/' || d == '*') = false := by simp
        rw [opensComment, none c (mem_of_isDelimiter delimits), Bool.and_false]
      rw [lexemesFrom_break some ends plain, start, Option.map_map, flush, if_neg some]
      rfl
  | cons d before ih =>
    have flushed (later : Option (List String)) :
        (later.bind fun front =>
            (lexemesFrom [] after).map (front ++ delimiter c ++ ·)).map (flush read ++ ·) =
          (later.map (flush read ++ ·)).bind fun front =>
            (lexemesFrom [] after).map (front ++ delimiter c ++ ·) := by
      cases later with
      | none => rfl
      | some front =>
        rw [Option.map_some, Option.bind_some, Option.bind_some, Option.map_map]
        refine congrArg (Option.map · _) (funext fun more => ?_)
        simp only [Function.comp_apply, List.append_assoc]
    rw [List.cons_append, lexemesFrom, lexemesFrom, ih, ih, ih, flushed, flushed]
    split_ifs <;> rfl

theorem lexemes_delimited {before after : String} {c : Char} {front behind : List String}
    (delimits : isDelimiter c) (first : lexemes before = some front)
    (second : lexemes after = some behind) :
    lexemes (before ++ String.ofList [c] ++ after) = some (front ++ delimiter c ++ behind) := by
  unfold lexemes at *
  rw [String.toList_append, String.toList_append, String.toList_ofList, List.append_assoc,
    List.singleton_append, lexemesFrom_delimited delimits, first, Option.bind_some, second, Option.map_some]

/-! ### A sign in front -/

/-- What is read begins the first lexeme. -/
theorem lexemesFrom_beginning {read rest : List Char} {first : String} {others : List String}
    (some : read ≠ []) (found : lexemesFrom read rest = .some (first :: others)) :
    ∃ more, first.toList = read ++ more := by
  induction rest generalizing read others with
  | nil =>
    rw [lexemesFrom, flush, if_neg some] at found
    cases found
    exact ⟨[], by rw [String.toList_ofList, List.append_nil]⟩
  | cons c rest ih =>
    have flushed {later : Option (List String)}
        (found : later.map (flush read ++ ·) = .some (first :: others)) :
        ∃ more, first.toList = read ++ more := by
      obtain ⟨ts, -, split⟩ := Option.map_eq_some_iff.mp found
      rw [flush, if_neg some, List.singleton_append] at split
      rw [← (List.cons.inj split).1]
      exact ⟨[], by rw [String.toList_ofList, List.append_nil]⟩
    rw [lexemesFrom] at found
    split_ifs at found
    · obtain ⟨more, chars⟩ := ih (List.append_ne_nil_of_right_ne_nil _ (List.cons_ne_nil _ _)) found
      exact ⟨c :: more, by rw [chars, List.append_assoc, List.singleton_append]⟩
    · exact flushed found
    · exact flushed found

/-- Whether a minus in front of a text becomes a longer sign with the first character there. -/
def continuesMinus (s : String) : Bool := s.toList.head?.any fun c => c == '-' || c == '>' || c == '='

theorem isLexeme_minus (c : Char) : isLexeme ['-', c] = (c == '-' || c == '>' || c == '=') := by
  have dashed : ∀ s ∈ signs, s.toList.head? = some '-' →
      s.toList.tail.all fun d => d == '-' || d == '>' || d == '=' := by decide +kernel
  have noWord : isWord (String.ofList ['-', c]) = false := by
    rw [isWord, String.toList_ofList]
    rfl
  have noNumeral : isUnsignedNumeral ['-', c] = false := rfl
  rw [isLexeme, noWord, noNumeral, Bool.false_or, Bool.false_or, Bool.eq_iff_iff, List.any_eq_true]
  constructor
  · rintro ⟨sign, among, same⟩
    rw [beq_iff_eq] at same
    have tail := dashed sign among (by rw [same]; rfl)
    rw [same] at tail
    simpa using tail
  · intro continues
    have longer : c = '-' ∨ c = '>' ∨ c = '=' := by simpa [or_assoc] using continues
    rcases longer with rfl | rfl | rfl
    · exact ⟨"--", by decide, by decide⟩
    · exact ⟨"->", by decide, by decide⟩
    · exact ⟨"-=", by decide, by decide⟩

theorem lexemes_minus_eq (s : String) : lexemes ("-" ++ s) = lexemesFrom ['-'] s.toList := by
  rw [lexemes, String.toList_append]
  exact (lexemesFrom_start '-' s.toList).trans (by rw [if_neg (by decide), if_pos (by decide)])

/-- A minus in front of a text stays alone, unless the first character there continues it. -/
theorem lexemes_minus_apart {s : String} (apart : continuesMinus s = false) :
    lexemes ("-" ++ s) = (lexemes s).map ("-" :: ·) := by
  rw [lexemes_minus_eq, lexemes]
  unfold continuesMinus at apart
  cases chars : s.toList with
  | nil => rfl
  | cons c rest =>
    rw [chars] at apart
    have ends : isLexeme (['-'] ++ [c]) = false := (isLexeme_minus c).trans apart
    exact lexemesFrom_break (List.cons_ne_nil _ _) ends rfl rest

/-- Otherwise the first lexeme is no minus. -/
theorem lexemes_minus_joined {s : String} (continues : continuesMinus s) (others : List String) :
    lexemes ("-" ++ s) ≠ some ("-" :: others) := by
  intro found
  rw [lexemes_minus_eq] at found
  unfold continuesMinus at continues
  cases chars : s.toList with
  | nil =>
    rw [chars] at continues
    cases continues
  | cons c rest =>
    rw [chars] at continues found
    have longer : isLexeme (['-'] ++ [c]) = true := (isLexeme_minus c).trans continues
    rw [lexemesFrom, if_pos ⟨List.cons_ne_nil _ _, longer⟩] at found
    obtain ⟨more, text⟩ := lexemesFrom_beginning (List.cons_ne_nil _ _) found
    cases text

/-- A minus in front of a text stays alone, unless the first lexeme there continues it. -/
theorem lexemes_minus {s first : String} {others : List String} (found : lexemes s = some (first :: others))
    (apart : ∀ c ∈ first.toList.head?, c ≠ '-' ∧ c ≠ '>' ∧ c ≠ '=') :
    lexemes ("-" ++ s) = some ("-" :: first :: others) := by
  rw [lexemes_minus_apart, found, Option.map_some]
  unfold lexemes at found
  unfold continuesMinus
  cases chars : s.toList with
  | nil => rfl
  | cons c rest =>
    rw [chars] at found
    rw [List.head?_cons, Option.any_some, Bool.eq_false_iff]
    intro continues
    have longer : c = '-' ∨ c = '>' ∨ c = '=' := by simpa [or_assoc] using continues
    have begins : lexemesFrom [c] rest = some (first :: others) := by
      rw [lexemesFrom_start] at found
      rcases longer with rfl | rfl | rfl <;> exact found
    obtain ⟨more, text⟩ := lexemesFrom_beginning (List.cons_ne_nil _ _) begins
    have other := apart c (by rw [text]; rfl)
    exact longer.elim other.1 fun two => two.elim other.2.1 other.2.2

end TunedKernel.Text
