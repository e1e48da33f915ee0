/-
**Texts that are made of pieces.**

* `Hold`, `hold_lexemes` — the lexemes of a text hold its characters without the gaps.
* `lexemesOf` — the lexemes of several texts, one after the other.
* `Parted` — a text that is made of pieces, with what keeps them apart: `Parted.delimited` for brackets,
  commas and gaps, and `Parted.minus` for a minus, which the character behind it may continue.
* `BeginsPlainly` — a text that continues no minus in front of it.
* `isSteady` — a text whose lexemes do not count up or down.
-/

import TunedKernel.Proofs.Source.Lexemes

namespace TunedKernel.Text

/-! ### The characters of lexemes -/

/-- The characters of a text without the gaps. -/
def solid (s : String) : List Char := s.toList.filter fun c => !isGap c

theorem solid_append (s t : String) : solid (s ++ t) = solid s ++ solid t := by
  rw [solid, String.toList_append, List.filter_append]
  rfl

/-- Lexemes that are not empty, with given characters. -/
def Hold (ts : List String) (cs : List Char) : Prop :=
  ts.flatMap String.toList = cs ∧ ∀ t ∈ ts, t.toList ≠ []

theorem Hold.append {ts us : List String} {cs ds : List Char} (first : Hold ts cs) (second : Hold us ds) :
    Hold (ts ++ us) (cs ++ ds) :=
  ⟨by rw [List.flatMap_append, first.1, second.1], List.forall_mem_append.mpr ⟨first.2, second.2⟩⟩

theorem hold_flush (read : List Char) : Hold (flush read) read := by
  rw [flush]
  split_ifs with empty
  · exact ⟨empty.symm, List.forall_mem_nil _⟩
  · refine ⟨by simp, List.forall_mem_singleton.mpr ?_⟩
    rwa [String.toList_ofList]

/-- Two beginnings of a list that hold the same characters are the same. -/
theorem Hold.append_inj {ts us after after' : List String} {cs : List Char} (first : Hold ts cs)
    (second : Hold us cs) (same : ts ++ after = us ++ after') : ts = us ∧ after = after' := by
  have empty {xs ys : List String} (longer : Hold (xs ++ ys) cs) (short : Hold xs cs) : ys = [] := by
    have none : ys.flatMap String.toList = [] := by
      have chars := longer.1
      rwa [List.flatMap_append, short.1, List.append_right_eq_self] at chars
    refine List.eq_nil_iff_forall_not_mem.mpr fun y member => ?_
    exact longer.2 y (List.mem_append_right xs member) (List.flatMap_eq_nil_iff.mp none y member)
  have equal : ts = us := by
    rcases List.append_eq_append_iff.mp same with ⟨more, rfl, -⟩ | ⟨more, rfl, -⟩
    · rw [empty second first, List.append_nil]
    · rw [empty first second, List.append_nil]
  exact ⟨equal, List.append_cancel_left (equal ▸ same)⟩

theorem hold_lexemesFrom {read cs : List Char} {ts : List String} (found : lexemesFrom read cs = some ts) :
    Hold ts (read ++ cs.filter fun c => !isGap c) := by
  induction cs generalizing read ts with
  | nil =>
    cases found
    rw [List.filter_nil, List.append_nil]
    exact hold_flush read
  | cons c cs ih =>
    have anew (read' : List Char) {later : Option (List String)}
        (next : ∀ us, later = some us → Hold us (read' ++ cs.filter fun c => !isGap c))
        (found : later.map (flush read ++ ·) = some ts) :
        Hold ts (read ++ (read' ++ cs.filter fun c => !isGap c)) := by
      obtain ⟨us, behind, rfl⟩ := Option.map_eq_some_iff.mp found
      exact (hold_flush read).append (next us behind)
    rw [lexemesFrom] at found
    split_ifs at found with longer _ gap
    · have noGap : isGap c = false := by
        rw [Bool.eq_false_iff]
        intro gap
        have several : 1 < (read ++ [c]).length := by
          rw [List.length_append, List.length_singleton]
          exact Nat.succ_lt_succ (List.length_pos_iff.mpr longer.1)
        rw [isLexeme_eq_false (List.mem_append_right read List.mem_cons_self) several
          (by rw [isDelimiter, gap, Bool.true_or])] at longer
        exact Bool.false_ne_true longer.2
      rw [List.filter_cons, noGap, Bool.not_false, if_pos rfl, ← List.singleton_append, ← List.append_assoc]
      exact ih found
    · rw [List.filter_cons, gap, Bool.not_true, if_neg Bool.false_ne_true]
      exact anew [] (fun us => ih) found
    · rw [List.filter_cons, (Bool.not_eq_true _).mp gap, Bool.not_false, if_pos rfl]
      exact anew [c] (fun us => ih) found

/-- The lexemes of a text hold its characters without the gaps. -/
theorem hold_lexemes {s : String} {ts : List String} (found : lexemes s = some ts) : Hold ts (solid s) :=
  hold_lexemesFrom found

/-! ### Pieces -/

/-- The lexemes of several texts, one after the other. -/
def lexemesOf : List String → Option (List String)
  | [] => some []
  | piece :: pieces => (lexemes piece).bind fun front => (lexemesOf pieces).map (front ++ ·)

theorem lexemesOf_append (ps qs : List String) : lexemesOf (ps ++ qs) =
    (lexemesOf ps).bind fun front => (lexemesOf qs).map (front ++ ·) := by
  induction ps with
  | nil => exact Option.map_id_apply.symm
  | cons p ps ih =>
    rw [List.cons_append, lexemesOf, lexemesOf, ih]
    cases lexemes p with
    | none => rfl
    | some front => cases lexemesOf ps <;> cases lexemesOf qs <;> simp

theorem lexemesOf_singleton (s : String) : lexemesOf [s] = lexemes s := by
  rw [lexemesOf]
  cases lexemes s <;> simp [lexemesOf]

theorem hold_lexemesOf {ps ts : List String} (found : lexemesOf ps = some ts) :
    Hold ts (ps.flatMap solid) := by
  induction ps generalizing ts with
  | nil =>
    cases found
    exact ⟨rfl, nofun⟩
  | cons p ps ih =>
    obtain ⟨front, first, found⟩ := Option.bind_eq_some_iff.mp found
    obtain ⟨behind, second, rfl⟩ := Option.map_eq_some_iff.mp found
    exact (hold_lexemes first).append (ih second)

/-- The lexemes of a delimiter are those that it stands for. -/
theorem lexemesOf_delimiter {c : Char} (delimits : isDelimiter c) :
    lexemesOf (delimiter c) = some (delimiter c) := by
  have every : " \t\n\x0b\x0c()[],".toList.all fun d => lexemesOf (delimiter d) == some (delimiter d) := by decide
  exact eq_of_beq (List.all_eq_true.mp every c (mem_of_isDelimiter delimits))

theorem solid_delimiter {c : Char} (delimits : isDelimiter c) :
    solid (String.ofList [c]) = (delimiter c).flatMap solid := by
  have every : " \t\n\x0b\x0c()[],".toList.all fun d =>
      solid (String.ofList [d]) == (delimiter d).flatMap solid := by decide
  exact eq_of_beq (List.all_eq_true.mp every c (mem_of_isDelimiter delimits))

/-- **A text that is made of pieces**, with a condition for keeping them apart: the lexemes of the text are
those of the pieces just when it holds. -/
structure Parted (s : String) (pieces : List String) (apart : Prop) : Prop where
  chars : solid s = pieces.flatMap solid
  eq : apart → lexemes s = lexemesOf pieces
  of_eq : ∀ ts, lexemes s = some ts → lexemesOf pieces = some ts → apart

namespace Parted

variable {s t : String} {ps qs : List String} {p q : Prop}

theorem whole (s : String) : Parted s [s] True where
  chars := (List.append_nil _).symm
  eq _ := (lexemesOf_singleton s).symm
  of_eq _ _ _ := trivial

theorem empty : Parted "" [] True := ⟨rfl, fun _ => rfl, fun _ _ _ => trivial⟩

theorem congr (parted : Parted s ps p) (texts : s = t) (pieces : ps = qs) (apart : p ↔ q) : Parted t qs q := by
  rwa [← texts, ← pieces, ← apart]

/-- A delimiter keeps apart what stands on both sides of it. -/
theorem delimited {c : Char} (delimits : isDelimiter c) (before : Parted s ps p) (after : Parted t qs q) :
    Parted (s ++ String.ofList [c] ++ t) (ps ++ delimiter c ++ qs) (p ∧ q) := by
  have texts : lexemes (s ++ String.ofList [c] ++ t) = (lexemes s).bind fun front =>
      (lexemes t).map (front ++ delimiter c ++ ·) := by
    unfold lexemes
    rw [String.toList_append, String.toList_append, String.toList_ofList, List.append_assoc,
      List.singleton_append, lexemesFrom_delimited delimits]
  have pieces : lexemesOf (ps ++ delimiter c ++ qs) = (lexemesOf ps).bind fun front =>
      (lexemesOf qs).map (front ++ delimiter c ++ ·) := by
    rw [lexemesOf_append, lexemesOf_append, lexemesOf_delimiter delimits]
    cases lexemesOf ps <;> rfl
  refine ⟨?_, fun both => ?_, fun ts found found' => ?_⟩
  · rw [solid_append, solid_append, before.chars, after.chars, solid_delimiter delimits, List.flatMap_append,
      List.flatMap_append]
  · rw [texts, pieces, before.eq both.1, after.eq both.2]
  · rw [texts] at found
    rw [pieces] at found'
    obtain ⟨front, first, found⟩ := Option.bind_eq_some_iff.mp found
    obtain ⟨behind, second, rfl⟩ := Option.map_eq_some_iff.mp found
    obtain ⟨front', first', found'⟩ := Option.bind_eq_some_iff.mp found'
    obtain ⟨behind', second', same⟩ := Option.map_eq_some_iff.mp found'
    rw [List.append_assoc, List.append_assoc] at same
    obtain ⟨rfl, rests⟩ := (hold_lexemesOf first').append_inj (before.chars ▸ hold_lexemes first) same
    obtain rfl := List.append_cancel_left rests
    exact ⟨before.of_eq _ first first', after.of_eq _ second second'⟩

/-- A minus is kept apart from what stands behind it when the character there does not continue it. -/
theorem minus (operand : Parted s ps p) : Parted ("-" ++ s) ("-" :: ps) (continuesMinus s = false ∧ p) := by
  have pieces : lexemesOf ("-" :: ps) = (lexemesOf ps).map ("-" :: ·) := by
    have sign : lexemes "-" = some ["-"] := by decide
    rw [lexemesOf, sign, Option.bind_some]
    rfl
  refine ⟨?_, fun both => ?_, fun ts found found' => ?_⟩
  · rw [solid_append, operand.chars]
    rfl
  · rw [lexemes_minus_apart both.1, operand.eq both.2, pieces]
  · rw [pieces] at found'
    obtain ⟨others, behind, rfl⟩ := Option.map_eq_some_iff.mp found'
    have apart : continuesMinus s = false := by
      rw [Bool.eq_false_iff]
      exact fun continues => lexemes_minus_joined continues others found
    rw [lexemes_minus_apart apart] at found
    obtain ⟨others', behind', same⟩ := Option.map_eq_some_iff.mp found
    obtain rfl := (List.cons.inj same).2
    exact ⟨apart, operand.of_eq _ behind' behind⟩

/-- A text in brackets behind another one. -/
theorem bracketed {o c : Char} (opens : isDelimiter o) (closes : isDelimiter c) (front : Parted s ps p)
    (inner : Parted t qs q) : Parted (s ++ String.ofList [o] ++ t ++ String.ofList [c])
      (ps ++ delimiter o ++ qs ++ delimiter c) (p ∧ q) :=
  ((front.delimited opens inner).delimited closes empty).congr String.append_empty (List.append_nil _)
    (and_iff_left trivial)

theorem paren (inner : Parted s ps p) : Parted ("(" ++ s ++ ")") (["("] ++ ps ++ [")"]) p :=
  (empty.bracketed (o := '(') (c := ')') (by decide) (by decide) inner).congr rfl rfl (and_iff_right trivial)

theorem subscript (base : String) (index : Parted s ps p) :
    Parted (base ++ "[" ++ s ++ "]") ([base, "["] ++ ps ++ ["]"]) p :=
  ((whole base).bracketed (o := '[') (c := ']') (by decide) (by decide) index).congr rfl rfl
    (and_iff_right trivial)

/-- A function of the text of its arguments. -/
theorem call (function : String) (arguments : Parted s ps p) :
    Parted (function ++ "(" ++ s ++ ")") ([function, "("] ++ ps ++ [")"]) p :=
  ((whole function).bracketed (o := '(') (c := ')') (by decide) (by decide) arguments).congr rfl rfl
    (and_iff_right trivial)

theorem pair (first : Parted s ps p) (second : Parted t qs q) :
    Parted (s ++ ", " ++ t) (ps ++ [","] ++ qs) (p ∧ q) := by
  have comma := first.delimited (c := ',') (by decide) empty
  refine (comma.delimited (c := ' ') (by decide) second).congr ?_ ?_ (by rw [and_true])
  · have sign : ", " = String.ofList [','] ++ String.ofList [' '] := rfl
    rw [String.append_empty, sign, ← String.append_assoc]
  · simp [delimiter, isGap]

/-- A sign between two operands, with gaps around it. -/
theorem binary (sign : String) (lhs : Parted s ps p) (rhs : Parted t qs q) :
    Parted (s ++ " " ++ sign ++ " " ++ t) (ps ++ [sign] ++ qs) (p ∧ q) := by
  have front := lhs.delimited (c := ' ') (by decide) (whole sign)
  refine (front.delimited (c := ' ') (by decide) rhs).congr rfl ?_ (by rw [and_true])
  simp [delimiter, isGap]

end Parted

/-! ### Texts behind a minus -/

theorem continuesMinus_of_cons {s : String} {c : Char} {cs : List Char} (chars : s.toList = c :: cs)
    (inside : isWordChar c ∨ c = '.') : continuesMinus s = false := by
  rw [continuesMinus, chars, List.head?_cons, Option.any_some, Bool.eq_false_iff]
  intro continues
  have sign : c = '-' ∨ c = '>' ∨ c = '=' := by simpa [or_assoc] using continues
  rcases sign with rfl | rfl | rfl <;> exact absurd inside (by decide)

/-- A text whose first character does not continue a minus. -/
def BeginsPlainly (s : String) : Prop := s.toList ≠ [] ∧ continuesMinus s = false

instance (s : String) : Decidable (BeginsPlainly s) := inferInstanceAs (Decidable (_ ∧ _))

theorem BeginsPlainly.append {s : String} (plain : BeginsPlainly s) (t : String) : BeginsPlainly (s ++ t) := by
  obtain ⟨some, apart⟩ := plain
  unfold BeginsPlainly continuesMinus at *
  rw [String.toList_append, List.head?_append_of_ne_nil _ some]
  exact ⟨List.append_ne_nil_of_left_ne_nil some _, apart⟩

theorem beginsPlainly_of_word {s : String} (word : isWord s) : BeginsPlainly s := by
  have inside := isWord_chars word
  cases chars : s.toList with
  | nil =>
    rw [isWord, chars] at word
    cases word
  | cons c cs =>
    rw [chars] at inside
    exact ⟨chars ▸ List.cons_ne_nil c cs, continuesMinus_of_cons chars (.inl (inside c List.mem_cons_self))⟩

/-! ### Signs of two characters -/

theorem isSome_lexemesOf {ps : List String} (each : ∀ p ∈ ps, (lexemes p).isSome) : (lexemesOf ps).isSome := by
  induction ps with
  | nil => rfl
  | cons p ps ih =>
    obtain ⟨first, others⟩ := List.forall_mem_cons.mp each
    obtain ⟨front, found⟩ := Option.isSome_iff_exists.mp first
    obtain ⟨behind, found'⟩ := Option.isSome_iff_exists.mp (ih others)
    rw [lexemesOf, found, found']
    rfl

/-- A lexeme of several texts is one of some of them. -/
theorem mem_lexemesOf {ps ts : List String} (found : lexemesOf ps = some ts) {lexeme : String}
    (member : lexeme ∈ ts) : ∃ p ∈ ps, ∃ us, lexemes p = some us ∧ lexeme ∈ us := by
  induction ps generalizing ts with
  | nil =>
    cases found
    cases member
  | cons p ps ih =>
    obtain ⟨front, first, found⟩ := Option.bind_eq_some_iff.mp found
    obtain ⟨behind, second, rfl⟩ := Option.map_eq_some_iff.mp found
    rcases List.mem_append.mp member with here | later
    · exact ⟨p, List.mem_cons_self, front, first, here⟩
    · obtain ⟨p', among, us, of, inside⟩ := ih second later
      exact ⟨p', List.mem_cons_of_mem p among, us, of, inside⟩

/-- The signs that count up and down. -/
def countingSigns : List String := ["++", "--"]

/-- Whether a text is made of lexemes that do not count up or down. -/
def isSteady (s : String) : Bool := (lexemes s).any fun ts => ts.all fun lexeme => !countingSigns.contains lexeme

theorem isSteady_of_lexemes {s : String} {ts : List String} (found : lexemes s = some ts)
    (none : ∀ lexeme ∈ ts, lexeme ∉ countingSigns) : isSteady s := by
  rw [isSteady, found, Option.any_some, List.all_eq_true]
  exact fun lexeme member => by simpa using none lexeme member

theorem isSteady_word {s : String} (word : isWord s) : isSteady s := by
  refine isSteady_of_lexemes (lexemes_word word) (List.forall_mem_singleton.mpr fun member => ?_)
  have none : ∀ sign ∈ countingSigns, ¬isWord sign := by decide
  exact none s member word

theorem not_mem_countingSigns {s : String} (numeral : isUnsignedNumeral s.toList) : s ∉ countingSigns := by
  have none : ∀ sign ∈ countingSigns, ¬isUnsignedNumeral sign.toList := by decide
  exact fun member => none s member numeral

theorem isSteady_numeral {s : String} (numeral : isUnsignedNumeral s.toList) : isSteady s :=
  isSteady_of_lexemes (lexemes_numeral numeral) (List.forall_mem_singleton.mpr (not_mem_countingSigns numeral))

/-- A numeral with a minus in front of it is made of both. -/
theorem isSteady_minus {s : String} (numeral : isUnsignedNumeral s.toList) : isSteady ("-" ++ s) := by
  have apart : continuesMinus s = false := by
    obtain ⟨point, digit, rest, text, rfl | rfl, isDigit, -⟩ := isUnsignedNumeral_cases numeral
    · exact continuesMinus_of_cons text (.inl (by rw [isWordChar, isDigit, Bool.or_true]))
    · exact continuesMinus_of_cons text (.inr rfl)
  have found := lexemes_minus_apart apart
  rw [lexemes_numeral numeral, Option.map_some] at found
  exact isSteady_of_lexemes found (List.forall_mem_cons.mpr
    ⟨by decide, List.forall_mem_singleton.mpr (not_mem_countingSigns numeral)⟩)

end TunedKernel.Text
