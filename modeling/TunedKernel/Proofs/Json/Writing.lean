/-
**Written JSON is read as the value.**

* `Datum.Exact` — values whose written form says all of them.
* `Spells` — the tokens that characters spell, in front of any text that does not continue a numeral.
* `toDigits_eq_of_head`, `scanUnsigned_toDigits` — a number has no zero in front, so all of its digits are one
  numeral; `scanString_quote`, `joinPieces_pieceOf` — a quoted text is one string, each character by its
  escape.
* `Stands` — characters whose tokens, wherever a value may stand, lead to the state that the value completes;
  `stands_writeChars` — the written form of a value does, by induction on the value.
* `read?_write` — a text that is written for a value is read as this value.
-/

import Mathlib.Data.List.TakeWhile
import TunedKernel.Json.Reader
import TunedKernel.Json.Writer
import TunedKernel.Proofs.Text.Numerals

namespace TunedKernel

open TunedKernel.Text

/-- A value whose written form says all of it: no number but whole ones of 64 bits, with a sign or without,
and no broken part. -/
inductive Datum.Exact : Datum → Prop
  | null : Exact .null
  | flag (value : Bool) : Exact (.flag value)
  | text (value : String) : Exact (.text value)
  | natural {n : Nat} (fits : n < UInt64.size) : Exact (.integer (.ofNat n))
  | negative {n : Nat} (fits : n < UInt64.size / 2) : Exact (.integer (.negSucc n))
  | list {items : List Datum} (each : ∀ d ∈ items, Exact d) : Exact (.list items)
  | record {members : Members} (each : ∀ m ∈ members, Exact m.2) : Exact (.record members)

namespace Json

/-! ### Tokens -/

/-- The characters that continue a numeral. -/
def continuesNumeral (c : Char) : Bool := c.isDigit || c == '.' || c == 'e' || c == 'E'

/-- A text that does not continue a numeral in front of it. -/
def Apart (rest : List Char) : Prop := ∀ c ∈ rest.head?, continuesNumeral c = false

theorem Apart.nil : Apart [] := nofun

theorem Apart.cons {c : Char} (other : continuesNumeral c = false) (rest : List Char) :
    Apart (c :: rest) := by
  intro d head
  rwa [← Option.some.inj head]

/-- The tokens that characters spell, in front of any text that does not continue a numeral. -/
def Spells (cs : List Char) (ts : List Token) : Prop :=
  ∀ rest, Apart rest → tokens (cs ++ rest) = (tokens rest).map (ts ++ ·)

theorem tokens_of_scan {c : Char} {cs after : List Char} {token : Token} (solid : isSpace c = false)
    (found : Token.scan (c :: cs) = some (token, after)) :
    tokens (c :: cs) = (tokens after).map (token :: ·) := by
  rw [tokens, if_neg (by simp [solid])]
  split
  · next none => cases none.symm.trans found
  · next token' after' some =>
    cases some.symm.trans found
    rfl

namespace Spells

variable {cs cs' : List Char} {ts ts' : List Token}

/-- Characters that are scanned as one token. -/
theorem of_scan {c : Char} {token : Token} (solid : isSpace c = false)
    (found : ∀ rest, Apart rest → Token.scan (c :: (cs ++ rest)) = some (token, rest)) :
    Spells (c :: cs) [token] :=
  fun rest apart => tokens_of_scan solid (found rest apart)

theorem append (first : Spells cs ts) (second : Spells cs' ts') (apart : ∀ rest, Apart (cs' ++ rest)) :
    Spells (cs ++ cs') (ts ++ ts') := by
  intro rest after
  rw [List.append_assoc, first _ (apart rest), second rest after, Option.map_map]
  exact congrArg (Option.map · _) (funext fun more => (List.append_assoc ..).symm)

/-- A sign in front of what is spelled. -/
theorem cons {c : Char} {token : Token} (spelled : Spells cs ts) (solid : isSpace c = false)
    (sign : ∀ rest, Token.scan (c :: rest) = some (token, rest)) : Spells (c :: cs) (token :: ts) := by
  intro rest apart
  rw [List.cons_append, tokens_of_scan solid (sign _), spelled rest apart, Option.map_map]
  rfl

end Spells

/-! ### Numerals -/

theorem digit_ne {c d : Char} (digit : c.isDigit) (other : d.isDigit = false) : c ≠ d := by
  rintro rfl
  exact Bool.false_ne_true (other.symm.trans digit)

/-- No number but zero is written with a zero in front. -/
theorem toDigits_eq_of_head {n : Nat} {ds : List Char} (zero : Nat.toDigits 10 n = '0' :: ds) : ds = [] := by
  induction n using Nat.strongRecOn generalizing ds with
  | _ n ih =>
    by_cases small : n < 10
    · rw [Nat.toDigits_of_lt_base small] at zero
      exact (List.cons.inj zero).2.symm
    · rw [Nat.toDigits_of_base_le (by decide) (Nat.le_of_not_lt small)] at zero
      obtain ⟨d, front, digits⟩ := List.exists_cons_of_ne_nil (Nat.toDigits_ne_nil (n := n / 10) (b := 10))
      rw [digits, List.cons_append, List.cons.injEq] at zero
      obtain ⟨rfl, -⟩ := zero
      have alone := ih (n / 10) (Nat.div_lt_self (by omega) (by decide)) digits
      have value : Nat.ofDigitChars 10 (Nat.toDigits 10 (n / 10)) 0 = n / 10 := Nat.ofDigitChars_ten_toDigits
      rw [digits, alone] at value
      have none : Nat.ofDigitChars 10 ['0'] 0 = 0 := by decide
      omega

theorem scanDigits_append {ds rest : List Char} (nonempty : ds ≠ []) (digits : ∀ c ∈ ds, c.isDigit)
    (apart : Apart rest) : scanDigits (ds ++ rest) = some (ds, rest) := by
  have ends : rest.takeWhile Char.isDigit = [] ∧ rest.dropWhile Char.isDigit = rest := by
    cases rest with
    | nil => exact ⟨rfl, rfl⟩
    | cons c rest =>
      have other := apart c rfl
      simp only [continuesNumeral, Bool.or_eq_false_iff] at other
      simp [other.1.1.1]
  rw [scanDigits, List.takeWhile_append_of_pos digits, List.dropWhile_append_of_pos digits, ends.1, ends.2,
    List.append_nil]
  cases ds with
  | nil => exact absurd rfl nonempty
  | cons c ds => rfl

theorem scanWhole_toDigits (n : Nat) {rest : List Char} (apart : Apart rest) :
    scanWhole (Nat.toDigits 10 n ++ rest) = some (Nat.toDigits 10 n, rest) := by
  have digits : ∀ c ∈ Nat.toDigits 10 n, c.isDigit :=
    fun c member => Nat.isDigit_of_mem_toDigits (by decide) (by decide) member
  unfold scanWhole
  split
  · next front text =>
    obtain ⟨d, ds, chars⟩ := List.exists_cons_of_ne_nil (Nat.toDigits_ne_nil (n := n) (b := 10))
    rw [chars, List.cons_append, List.cons.injEq] at text
    obtain ⟨rfl, rfl⟩ := text
    rw [chars, toDigits_eq_of_head chars, List.nil_append]
  · exact scanDigits_append Nat.toDigits_ne_nil digits apart

theorem scanUnsigned_toDigits (negative : Bool) (n : Nat) {rest : List Char} (apart : Apart rest) :
    scanUnsigned negative (Nat.toDigits 10 n ++ rest) =
      some (⟨negative, Nat.toDigits 10 n, none, none⟩, rest) := by
  have fraction : scanFraction rest = some (none, rest) := by
    unfold scanFraction
    split
    · cases apart '.' rfl
    · rfl
  have exponent : scanExponent rest = some (none, rest) := by
    unfold scanExponent
    split
    · rfl
    · next mark after =>
      have other := apart mark rfl
      simp only [continuesNumeral, Bool.or_eq_false_iff] at other
      rw [if_neg (by simp [other.1.2, other.2])]
  simp only [scanUnsigned, scanWhole_toDigits n apart, fraction, exponent, bind, Option.bind, pure]

theorem Token.scan_numeral {c : Char} (rest : List Char) (begins : c.isDigit ∨ c = '-') :
    Token.scan (c :: rest) =
      (scanNumeral (c :: rest)).map fun (numeral, after) => (.number numeral, after) := by
  have other {d : Char} (noDigit : d.isDigit = false) (noSign : d ≠ '-') : c ≠ d := by
    rcases begins with digit | rfl
    · exact digit_ne digit noDigit
    · exact noSign.symm
  unfold Token.scan
  split
  case h_11 => rfl
  all_goals
    next text => exact absurd (List.cons.inj text).1 (other (by decide) (by decide))

theorem scanNumeral_toDigits (n : Nat) {rest : List Char} (apart : Apart rest) :
    scanNumeral (Nat.toDigits 10 n ++ rest) = some (⟨false, Nat.toDigits 10 n, none, none⟩, rest) := by
  unfold scanNumeral
  split
  · next text =>
    obtain ⟨d, ds, chars⟩ := List.exists_cons_of_ne_nil (Nat.toDigits_ne_nil (n := n) (b := 10))
    rw [chars, List.cons_append, List.cons.injEq] at text
    have digit : d.isDigit :=
      Nat.isDigit_of_mem_toDigits (n := n) (by decide) (by decide) (chars ▸ List.mem_cons_self)
    exact absurd text.1 (digit_ne digit (by decide))
  · exact scanUnsigned_toDigits false n apart

theorem Numeral.datum_natural {n : Nat} (fits : n < UInt64.size) :
    Numeral.datum ⟨false, Nat.toDigits 10 n, none, none⟩ = .integer (.ofNat n) := by
  have value : readDecimal (Nat.toDigits 10 n) = n := Nat.ofDigitChars_ten_toDigits
  have whole : Numeral.integer? ⟨false, Nat.toDigits 10 n, none, none⟩ = some (n : Int) := by
    simp [Numeral.integer?, value, fits]
  rw [Numeral.datum, whole]
  rfl

theorem Numeral.datum_negative {n : Nat} (fits : n < UInt64.size / 2) :
    Numeral.datum ⟨true, Nat.toDigits 10 (n + 1), none, none⟩ = .integer (.negSucc n) := by
  have value : readDecimal (Nat.toDigits 10 (n + 1)) = n + 1 := Nat.ofDigitChars_ten_toDigits
  have whole : Numeral.integer? ⟨true, Nat.toDigits 10 (n + 1), none, none⟩ = some (.negSucc n) := by
    simp [Numeral.integer?, value]
    omega
  rw [Numeral.datum, whole]

/-! ### Strings -/

/-- The piece that an escaped character is read as. -/
def pieceOf (c : Char) : Piece :=
  match escape c with
  | '\\' :: 'u' :: _ => .unit c.toNat
  | _ => .char c

theorem joinPieces_unit {n : Nat} (leading : isLeading n = false) (trailing : isTrailing n = false)
    (rest : List Piece) :
    joinPieces (.unit n :: rest) = (joinPieces rest).map (Char.ofNat n :: ·) := by
  cases rest with
  | nil => simp [joinPieces, leading, trailing]
  | cons piece rest => cases piece <;> simp [joinPieces, leading, trailing]

/-- How a character stands in a string: by a short escape, by its number, or as itself. -/
theorem escape_cases (c : Char) :
    (∃ e, e ≠ 'u' ∧ escape c = ['\\', e] ∧ shortEscape? e = some c ∧ pieceOf c = .char c) ∨
    (c.toNat < 0x20 ∧ escape c = ['\\', 'u', '0', '0', hexDigit (c.toNat / 16), hexDigit (c.toNat % 16)] ∧
      pieceOf c = .unit c.toNat) ∨
    (c ≠ '"' ∧ c ≠ '\\' ∧ ¬ c.toNat < 0x20 ∧ escape c = [c] ∧ pieceOf c = .char c) := by
  by_cases short : c ∈ ['"', '\\', '\x08', '\x0c', '\n', '\r', '\t']
  · refine Or.inl ?_
    simp only [List.mem_cons, List.not_mem_nil, or_false] at short
    rcases short with rfl | rfl | rfl | rfl | rfl | rfl | rfl
    all_goals exact ⟨_, by decide, rfl, rfl, rfl⟩
  · simp only [List.mem_cons, List.not_mem_nil, or_false, not_or] at short
    obtain ⟨quote, slash, back, feed, line, ret, tab⟩ := short
    have long : escape c = if c.toNat < 0x20 then
        ['\\', 'u', '0', '0', hexDigit (c.toNat / 16), hexDigit (c.toNat % 16)] else [c] := by
      unfold escape
      split <;> first | contradiction | rfl
    by_cases control : c.toNat < 0x20
    · rw [if_pos control] at long
      exact Or.inr (Or.inl ⟨control, long, by rw [pieceOf, long]; rfl⟩)
    · rw [if_neg control] at long
      refine Or.inr (Or.inr ⟨quote, slash, control, long, ?_⟩)
      rw [pieceOf, long]
      split
      · next text => cases text
      · rfl

theorem scanString_escape (c : Char) (rest : List Char) :
    scanString (escape c ++ rest) =
      (scanString rest).map fun (pieces, after) => (pieceOf c :: pieces, after) := by
  rcases escape_cases c with ⟨e, noUnit, text, short, piece⟩ | ⟨control, text, piece⟩ |
    ⟨noQuote, noSlash, high, text, piece⟩
  · rw [text, piece]
    show scanString ('\\' :: e :: rest) = _
    rw [scanString.eq_def]
    split
    · next empty => cases empty
    · next quote => cases quote
    · next a b c d after same =>
      cases same
      exact absurd rfl noUnit
    · next e' rest' _ same =>
      cases same
      rw [short]
    · next c' rest' _ other same =>
      cases same
      exact (other _ _ rfl rfl).elim
  · rw [text, piece]
    have high : c.toNat / 16 < 16 := by omega
    have low : c.toNat % 16 < 16 := by omega
    have digits : ['0', '0', hexDigit (c.toNat / 16), hexDigit (c.toNat % 16)].all isHexDigit := by
      simp [isHexDigit_hexDigit high, isHexDigit_hexDigit low]
      decide
    have value : readHex ['0', '0', hexDigit (c.toNat / 16), hexDigit (c.toNat % 16)] = c.toNat := by
      simp only [readHex, List.foldl_cons, List.foldl_nil, hexValue?_hexDigit _ high,
        hexValue?_hexDigit _ low, Option.getD_some]
      have zero : (hexValue? '0').getD 0 = 0 := by decide
      omega
    simp only [List.cons_append, List.nil_append]
    rw [scanString, if_pos digits, value]
  · rw [text, piece]
    show scanString (c :: rest) = _
    rw [scanString.eq_def]
    split
    · next empty => cases empty
    · next same => exact absurd (List.cons.inj same).1 noQuote
    · next same => exact absurd (List.cons.inj same).1 noSlash
    · next same => exact absurd (List.cons.inj same).1 noSlash
    · next c' rest' _ _ same =>
      cases same
      rw [if_neg (by simp [high, noSlash])]

theorem joinPieces_pieceOf (cs : List Char) : joinPieces (cs.map pieceOf) = some cs := by
  induction cs with
  | nil => rfl
  | cons c cs ih =>
    rw [List.map_cons]
    rcases escape_cases c with ⟨e, -, -, -, piece⟩ | ⟨control, -, piece⟩ | ⟨-, -, -, -, piece⟩
    · rw [piece, joinPieces, ih]
      rfl
    · have leading : isLeading c.toNat = false := by simp [isLeading]; omega
      have trailing : isTrailing c.toNat = false := by simp [isTrailing]; omega
      rw [piece, joinPieces_unit leading trailing, ih, Char.ofNat_toNat]
      rfl
    · rw [piece, joinPieces, ih]
      rfl

theorem scanString_quote (cs rest : List Char) :
    scanString (cs.flatMap escape ++ '"' :: rest) = some (cs.map pieceOf, rest) := by
  induction cs with
  | nil => rfl
  | cons c cs ih =>
    rw [List.flatMap_cons, List.append_assoc, scanString_escape, ih]
    rfl

/-- A quoted text is read as the text. -/
theorem Token.scan_quote (text : String) (rest : List Char) :
    Token.scan (quote text ++ rest) = some (.string (some text), rest) := by
  have split : quote text ++ rest = '"' :: (text.toList.flatMap escape ++ '"' :: rest) := by simp [quote]
  rw [split]
  show (scanString (text.toList.flatMap escape ++ '"' :: rest)).map _ = _
  rw [scanString_quote]
  show some (Token.string ((joinPieces (text.toList.map pieceOf)).map String.ofList), rest) = _
  rw [joinPieces_pieceOf, Option.map_some, String.ofList_toList]

/-! ### Values -/

/-- Characters whose tokens, wherever a value may stand, lead to the state that the value completes. -/
def Stands (cs : List Char) (d : Datum) : Prop :=
  ∃ first rest, Spells cs (first :: rest) ∧ first ≠ .closeList ∧
    ∀ frames, (first :: rest).foldlM State.step ⟨frames, .value⟩ = some (State.put frames d)

/-- Characters that are scanned as a token with a value of its own. -/
theorem Stands.of_scan {c : Char} {cs : List Char} (token : Token) {d : Datum} (solid : isSpace c = false)
    (found : ∀ rest, Apart rest → Token.scan (c :: (cs ++ rest)) = some (token, rest))
    (single : token.datum? = some d) : Stands (c :: cs) d := by
  refine ⟨token, [], .of_scan solid found, ?_, fun frames => ?_⟩
  · rintro rfl
    cases single
  · have begun : State.begin frames token = some (State.put frames d) := by
      unfold State.begin
      split
      · cases single
      · cases single
      · rw [single, Option.map_some]
    show (State.begin frames token).bind some = _
    rw [begun, Option.bind_some]

theorem spells_quote (text : String) : Spells (quote text) [.string (some text)] :=
  .of_scan (by decide) fun rest _ => Token.scan_quote text rest

/-- Items after those of a list that is open, up to its end. -/
theorem exists_items {items : List Datum} (nonempty : items ≠ [])
    (each : ∀ d ∈ items, Stands (writeChars d) d) :
    ∃ first ts, Spells (writeItems items ++ [']']) (first :: ts) ∧ first ≠ .closeList ∧
      ∀ before frames, (first :: ts).foldlM State.step ⟨.list before :: frames, .value⟩ =
        some (State.put frames (.list (before.reverse ++ items))) := by
  induction items with
  | nil => exact absurd rfl nonempty
  | cons d items ih =>
    obtain ⟨stands, each⟩ := List.forall_mem_cons.mp each
    obtain ⟨first, ts, spelled, opens, leads⟩ := stands
    cases items with
    | nil =>
      refine ⟨first, ts ++ [.closeList], ?_, opens, fun before frames => ?_⟩
      · exact spelled.append (.of_scan (by decide) fun rest _ => rfl) (.cons (by decide))
      · rw [← List.cons_append, List.foldlM_append, leads, ← List.reverse_cons]
        rfl
    | cons d' items =>
      obtain ⟨first', ts', spelled', -, leads'⟩ := ih (List.cons_ne_nil _ _) each
      refine ⟨first, ts ++ .comma :: first' :: ts', ?_, opens, fun before frames => ?_⟩
      · have joined := spelled.append (spelled'.cons (c := ',') (by decide) fun rest => rfl)
          (.cons (by decide))
        simpa [writeItems] using joined
      · rw [← List.cons_append, List.foldlM_append, leads]
        show (first' :: ts').foldlM State.step ⟨.list (d :: before) :: frames, .value⟩ = _
        rw [leads', List.reverse_cons, List.append_assoc, List.singleton_append]

/-- Members after those of a record that is open, up to its end. -/
theorem exists_members {members : Members} (nonempty : members ≠ [])
    (each : ∀ m ∈ members, Stands (writeChars m.2) m.2) :
    ∃ name ts, Spells (writeMembers members ++ ['\x7d']) (.string (some name) :: ts) ∧
      ∀ before frames, ts.foldlM State.step ⟨.record true before (some name) :: frames, .colon⟩ =
        some (State.put frames (.record (before.reverse ++ members))) := by
  induction members with
  | nil => exact absurd rfl nonempty
  | cons member members ih =>
    obtain ⟨name, d⟩ := member
    obtain ⟨stands, each⟩ := List.forall_mem_cons.mp each
    obtain ⟨first, ts, spelled, -, leads⟩ := stands
    have named : Spells (quote name ++ ':' :: writeChars d) (.string (some name) :: .colon :: first :: ts) :=
      (spells_quote name).append (spelled.cons (c := ':') (by decide) fun rest => rfl) (.cons (by decide))
    have valued (before : Members) (frames : List Frame) : (.colon :: first :: ts).foldlM State.step
        ⟨.record true before (some name) :: frames, .colon⟩ =
          some ⟨.record true ((name, d) :: before) none :: frames, .separator⟩ :=
      leads (.record true before (some name) :: frames)
    cases members with
    | nil =>
      refine ⟨name, .colon :: first :: ts ++ [.closeRecord], ?_, fun before frames => ?_⟩
      · exact named.append (.of_scan (by decide) fun rest _ => rfl) (.cons (by decide))
      · rw [List.foldlM_append, valued, ← List.reverse_cons]
        rfl
    | cons member' members =>
      obtain ⟨name', ts', spelled', leads'⟩ := ih (List.cons_ne_nil _ _) each
      refine ⟨name, .colon :: first :: ts ++ .comma :: .string (some name') :: ts', ?_,
        fun before frames => ?_⟩
      · have joined := named.append (spelled'.cons (c := ',') (by decide) fun rest => rfl)
          (.cons (by decide))
        simpa [writeMembers] using joined
      · rw [List.foldlM_append, valued]
        show ts'.foldlM State.step ⟨.record true ((name, d) :: before) (some name') :: frames, .colon⟩ = _
        rw [leads', List.reverse_cons, List.append_assoc, List.singleton_append]

/-- **The written form of a value stands for it.** -/
theorem stands_writeChars {d : Datum} (exact : d.Exact) : Stands (writeChars d) d := by
  induction exact with
  | null => exact .of_scan _ (by decide) (fun rest _ => rfl) rfl
  | flag value => cases value <;> exact .of_scan _ (by decide) (fun rest _ => rfl) rfl
  | text value => exact .of_scan _ (by decide) (fun rest _ => Token.scan_quote value rest) rfl
  | @natural n fits =>
    obtain ⟨c, cs, chars⟩ := List.exists_cons_of_ne_nil (Nat.toDigits_ne_nil (n := n) (b := 10))
    have digit : c.isDigit :=
      Nat.isDigit_of_mem_toDigits (n := n) (by decide) (by decide) (chars ▸ List.mem_cons_self)
    have solid : isSpace c = false := by
      simp [isSpace, digit_ne digit (d := ' ') (by decide), digit_ne digit (d := '\t') (by decide),
        digit_ne digit (d := '\n') (by decide), digit_ne digit (d := '\r') (by decide)]
    rw [writeChars, chars]
    refine .of_scan (.number ⟨false, c :: cs, none, none⟩) solid (fun rest apart => ?_) ?_
    · rw [Token.scan_numeral _ (Or.inl digit), ← List.cons_append, ← chars, scanNumeral_toDigits n apart]
      rfl
    · rw [Token.datum?, ← chars, Numeral.datum_natural fits]
  | @negative n fits =>
    refine .of_scan (.number ⟨true, Nat.toDigits 10 (n + 1), none, none⟩) (by decide)
      (fun rest apart => ?_) ?_
    · rw [Token.scan_numeral _ (Or.inr rfl)]
      show (scanUnsigned true (Nat.toDigits 10 (n + 1) ++ rest)).map _ = _
      rw [scanUnsigned_toDigits true _ apart]
      rfl
    · rw [Token.datum?, Numeral.datum_negative fits]
  | @list items each ih =>
    by_cases empty : items = []
    · subst empty
      refine ⟨.openList, [.closeList], ?_, nofun, fun frames => rfl⟩
      exact Spells.cons (.of_scan (by decide) fun rest _ => rfl) (by decide) fun rest => rfl
    · obtain ⟨first, ts, spelled, opens, leads⟩ := exists_items empty ih
      refine ⟨.openList, first :: ts, spelled.cons (by decide) fun rest => rfl, nofun, fun frames => ?_⟩
      have begun : State.step ⟨.list [] :: frames, .itemOrEnd⟩ first =
          State.step ⟨.list [] :: frames, .value⟩ first := by
        cases first <;> first | rfl | exact absurd rfl opens
      have leads := leads [] frames
      rw [List.foldlM_cons, ← begun] at leads
      exact leads
  | @record members each ih =>
    by_cases empty : members = []
    · subst empty
      refine ⟨.openRecord, [.closeRecord], ?_, nofun, fun frames => rfl⟩
      exact Spells.cons (.of_scan (by decide) fun rest _ => rfl) (by decide) fun rest => rfl
    · obtain ⟨name, ts, spelled, leads⟩ := exists_members empty ih
      refine ⟨.openRecord, .string (some name) :: ts, spelled.cons (by decide) fun rest => rfl, nofun,
        fun frames => ?_⟩
      exact leads [] frames

/-- **A text that is written for a value is read as this value.** -/
theorem read?_write {d : Datum} (exact : d.Exact) : read? (write d) = some d := by
  obtain ⟨first, ts, spelled, -, leads⟩ := stands_writeChars exact
  have scanned : tokens (writeChars d) = some (first :: ts) := by
    have all := spelled [] .nil
    rwa [List.append_nil, show tokens [] = some [] by rw [tokens], Option.map_some, List.append_nil] at all
  unfold read? write
  rw [String.toList_ofList, scanned, Option.bind_eq_bind, Option.bind_some, State.start, leads []]
  rfl

end Json

end TunedKernel
