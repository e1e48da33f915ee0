/-
**The expressions of kernel code.**

The grammar of expressions is that of C, with its precedence and associativity. Left out are only the
operands that kernel code has no use for: quoted texts, generic selections and compound literals.

* `Phrase` — an expression taken apart. Brackets are no part of it: they only say what belongs together.
* `Level`, `Derives` — the levels of the grammar from the comma down to the simple
  expression, and
  the lexemes of an expression of each level.
* `Frame`, `Mode`, `step`, `parse` — reads lexemes one by one. What waits for its right operand is on
  a stack, and is closed as soon as a lexeme follows that binds no tighter.
* `Derives.runs` — what is derived is read from any stack that admits its level, by induction on the
  derivation. What is left waiting binds as tightly as the level.
* `Derives.parse`, `Derives.unique` — so an expression is read in one way only.
-/

import Mathlib.Logic.Function.Iterate
import TunedKernel.Proofs.Source.Lexemes

namespace TunedKernel.Text

/-! ### Phrases -/

/-- The words that the language keeps for itself. -/
def keywords : List String :=
  ["auto", "break", "case", "char", "const", "continue", "default", "do", "double", "else", "enum",
    "extern", "float", "for", "goto", "if", "inline", "int", "long", "register", "restrict", "return",
    "short", "signed", "sizeof", "static", "struct", "switch", "typedef", "union", "unsigned", "void",
    "volatile", "while", "_Alignas", "_Alignof", "_Atomic", "_Bool", "_Complex", "_Generic",
    "_Imaginary", "_Noreturn", "_Static_assert", "_Thread_local"]

/-- The words that types are made of. -/
def typeWords : List String :=
  ["void", "char", "short", "int", "long", "float", "double", "signed", "unsigned", "const",
    "volatile", "_Bool", "_Complex"]

/-- Whether a word is free to be a name. -/
def isName (s : String) : Bool := isWord s && !keywords.contains s

/-- The name of a type: words, and stars for pointers. -/
def isTypeName : List String → Bool
  | [] => false
  | w :: ws => typeWords.contains w && ws.all fun v => typeWords.contains v || v == "*"

/-- An expression taken apart. -/
inductive Phrase where
  | name (x : String)
  | numeral (text : String)
  | subscript (base index : Phrase)
  /-- A call without arguments. -/
  | invoke (callee : Phrase)
  | call (callee arguments : Phrase)
  /-- Several arguments: the last one, and those in front of it. -/
  | pair (front last : Phrase)
  | member (base : Phrase) (sign field : String)
  /-- A sign behind its operand. -/
  | suffix (operand : Phrase) (sign : String)
  /-- A sign in front of its operand. -/
  | before (sign : String) (operand : Phrase)
  | sizeOf (type : List String)
  | cast (type : List String) (operand : Phrase)
  | binary (sign : String) (lhs rhs : Phrase)
  | conditional (condition whenTrue whenFalse : Phrase)
  | assign (sign : String) (target value : Phrase)
deriving DecidableEq, Repr

/-! ### The grammar -/

/-- The levels of the grammar. -/
inductive Level where
  | expression
  /-- The arguments of a call. -/
  | arguments
  | assignment
  | conditional
  | either
  | both
  | bitOr
  | bitXor
  | bitAnd
  | equality
  | relational
  | shift
  | additive
  | multiplicative
  | cast
  | unary
  | simple
deriving DecidableEq, Repr

namespace Level

/-- The next tighter level. -/
def next : Level → Level
  | expression | arguments => assignment
  | assignment => conditional
  | conditional => either
  | either => both
  | both => bitOr
  | bitOr => bitXor
  | bitXor => bitAnd
  | bitAnd => equality
  | equality => relational
  | relational => shift
  | shift => additive
  | additive => multiplicative
  | multiplicative => cast
  | cast => unary
  | unary | simple => simple

/-- How tightly an expression of this level holds its operands. -/
def rank : Level → Nat
  | expression | arguments => 0
  | assignment => 1
  | conditional => 2
  | either => 3
  | both => 4
  | bitOr => 5
  | bitXor => 6
  | bitAnd => 7
  | equality => 8
  | relational => 9
  | shift => 10
  | additive => 11
  | multiplicative => 12
  | cast | unary => 13
  | simple => 15

/-- What waits in front of an expression of this level holds its operand less tightly than this. What
associates to the right may wait in front of its own level. -/
def limit : Level → Nat
  | assignment => 2
  | conditional => 3
  | cast => 14
  | unary => 15
  | n => n.rank

theorem rank_le_next (n : Level) : n.rank ≤ n.next.rank := by cases n <;> decide

end Level

/-- The signs between two operands, with their levels; all of them associate to the left. -/
def binaryLevels : List (String × Level) :=
  [(",", .expression), ("||", .either), ("&&", .both), ("|", .bitOr), ("^", .bitXor), ("&", .bitAnd),
    ("==", .equality), ("!=", .equality), ("<", .relational), (">", .relational), ("<=", .relational),
    (">=", .relational), ("<<", .shift), (">>", .shift), ("+", .additive), ("-", .additive),
    ("*", .multiplicative), ("/", .multiplicative), ("%", .multiplicative)]

/-- The level of a sign between two operands. -/
def binaryLevel? (sign : String) : Option Level :=
  (binaryLevels.find? fun entry => entry.1 == sign).map Prod.snd

/-- The signs in front of an operand that may be a cast. -/
def frontSigns : List String := ["&", "*", "+", "-", "~", "!"]

/-- The signs in front of an operand that may not be a cast. -/
def tightSigns : List String := ["++", "--", "sizeof"]

/-- The signs behind an operand. -/
def suffixSigns : List String := ["++", "--"]

/-- The signs in front of a field. -/
def memberSigns : List String := [".", "->"]

/-- The signs of assignments. -/
def assignSigns : List String := ["=", "*=", "/=", "%=", "+=", "-=", "<<=", ">>=", "&=", "^=", "|="]

/-- The lexemes of the expressions of each level. -/
inductive Derives : Level → List String → Phrase → Prop
  /-- An expression of a level is one of every looser level. -/
  | weaken {n : Level} {ts : List String} {p : Phrase} (tighter : Derives n.next ts p) : Derives n ts p
  | name {x : String} (is : isName x) : Derives .simple [x] (.name x)
  | numeral {x : String} (is : isUnsignedNumeral x.toList) : Derives .simple [x] (.numeral x)
  | paren {ts : List String} {p : Phrase} (inner : Derives .expression ts p) :
    Derives .simple ("(" :: ts ++ [")"]) p
  | subscript {ts us : List String} {b i : Phrase} (base : Derives .simple ts b)
    (index : Derives .expression us i) : Derives .simple (ts ++ "[" :: us ++ ["]"]) (.subscript b i)
  | invoke {ts : List String} {f : Phrase} (callee : Derives .simple ts f) :
    Derives .simple (ts ++ ["(", ")"]) (.invoke f)
  | call {ts us : List String} {f a : Phrase} (callee : Derives .simple ts f)
    (arguments : Derives .arguments us a) : Derives .simple (ts ++ "(" :: us ++ [")"]) (.call f a)
  | pair {ts us : List String} {f l : Phrase} (front : Derives .arguments ts f)
    (last : Derives .assignment us l) : Derives .arguments (ts ++ "," :: us) (.pair f l)
  | member {ts : List String} {b : Phrase} {sign x : String} (base : Derives .simple ts b)
    (among : sign ∈ memberSigns) (field : isName x) :
    Derives .simple (ts ++ [sign, x]) (.member b sign x)
  | suffix {ts : List String} {p : Phrase} {sign : String} (operand : Derives .simple ts p)
    (among : sign ∈ suffixSigns) : Derives .simple (ts ++ [sign]) (.suffix p sign)
  | tight {ts : List String} {p : Phrase} {sign : String} (among : sign ∈ tightSigns)
    (operand : Derives .unary ts p) : Derives .unary (sign :: ts) (.before sign p)
  | before {ts : List String} {p : Phrase} {sign : String} (among : sign ∈ frontSigns)
    (operand : Derives .cast ts p) : Derives .unary (sign :: ts) (.before sign p)
  | sizeOf {type : List String} (is : isTypeName type) :
    Derives .unary ("sizeof" :: "(" :: type ++ [")"]) (.sizeOf type)
  | cast {type ts : List String} {p : Phrase} (is : isTypeName type) (operand : Derives .cast ts p) :
    Derives .cast ("(" :: type ++ ")" :: ts) (.cast type p)
  | binary {n : Level} {ts us : List String} {l r : Phrase} {sign : String}
    (level : (sign, n) ∈ binaryLevels) (lhs : Derives n ts l) (rhs : Derives n.next us r) :
    Derives n (ts ++ sign :: us) (.binary sign l r)
  | conditional {cs ts es : List String} {c t e : Phrase} (condition : Derives .either cs c)
    (whenTrue : Derives .expression ts t) (whenFalse : Derives .conditional es e) :
    Derives .conditional (cs ++ "?" :: ts ++ ":" :: es) (.conditional c t e)
  | assign {ts us : List String} {l r : Phrase} {sign : String} (among : sign ∈ assignSigns)
    (target : Derives .unary ts l) (value : Derives .assignment us r) :
    Derives .assignment (ts ++ sign :: us) (.assign sign l r)

/-- A tighter expression is one of every looser level. -/
theorem Derives.loosen {n : Level} (k : Nat) {ts : List String} {p : Phrase}
    (tighter : Derives (Level.next^[k] n) ts p) : Derives n ts p := by
  induction k generalizing n with
  | zero => exact tighter
  | succ k ih => exact weaken (ih tighter)

/-- A simple expression is one of every level. -/
theorem Derives.of_simple (n : Level) {ts : List String} {p : Phrase} (simple : Derives .simple ts p) :
    Derives n ts p := by
  refine loosen 15 ?_
  cases n <;> exact simple

/-- How a simple expression begins. -/
theorem Derives.beginning {ts : List String} {p : Phrase} (simple : Derives .simple ts p) :
    ∃ first others, ts = first :: others ∧
      (isName first ∨ isUnsignedNumeral first.toList ∨ first = "(") := by
  generalize is : Level.simple = n at simple
  induction simple with
  | weaken tighter ih => exact ih (by rw [← is]; rfl)
  | @name x identifier => exact ⟨x, [], rfl, Or.inl identifier⟩
  | @numeral x numeral => exact ⟨x, [], rfl, Or.inr (Or.inl numeral)⟩
  | paren inner => exact ⟨_, _, rfl, Or.inr (Or.inr rfl)⟩
  | subscript base index ih | invoke base ih | call base index ih | member base among field ih
  | suffix base among ih =>
    obtain ⟨first, others, rfl, begins⟩ := ih rfl
    exact ⟨first, _, rfl, begins⟩
  | pair | tight | before | sizeOf | cast | conditional | assign => cases is
  | @binary n ts us l r sign level =>
    have none : ∀ e ∈ binaryLevels, e.2 ≠ .simple := by decide
    exact absurd is.symm (none _ level)

/-! ### Reading -/

/-- A phrase that waits for its last operand, or for a closing lexeme. -/
inductive Frame where
  | paren
  | subscript (base : Phrase)
  | call (callee : Phrase)
  | between (condition : Phrase)
  | pair (front : Phrase)
  | before (sign : String)
  | cast (type : List String)
  | binary (sign : String) (lhs : Phrase)
  | otherwise (condition whenTrue : Phrase)
  | assign (sign : String) (target : Phrase)

/-- What is expected next. -/
inductive Mode where
  | operand
  /-- An operand is read; what follows is a sign or closes. -/
  | operator (p : Phrase)
  /-- These words of a type are read. -/
  | type (words : List String)
  /-- The field of a member. -/
  | field (base : Phrase) (sign : String)

namespace Frame

/-- How tightly a frame holds its last operand; a frame that waits for a closing lexeme holds none. -/
def rank? : Frame → Option Nat
  | paren | subscript _ | call _ | between _ => none
  | pair _ => some 0
  | before sign => some (if tightSigns.contains sign then 14 else 13)
  | cast _ => some 13
  | binary sign _ => (binaryLevel? sign).map Level.rank
  | otherwise .. => some 2
  | assign .. => some 1

/-- The phrase that a frame is with its last operand. -/
def close : Frame → Phrase → Phrase
  | pair front, last => .pair front last
  | before sign, operand => .before sign operand
  | cast type, operand => .cast type operand
  | binary sign lhs, rhs => .binary sign lhs rhs
  | otherwise condition whenTrue, whenFalse => .conditional condition whenTrue whenFalse
  | assign sign target, value => .assign sign target value
  | _, p => p

theorem rank?_lt {f : Frame} {r : Nat} (rank : f.rank? = some r) : r < 15 := by
  cases f with
  | before sign =>
    rw [rank?] at rank
    split_ifs at rank <;> cases rank <;> decide
  | binary sign lhs =>
    have every : ∀ entry ∈ binaryLevels, entry.2.rank < 15 := by decide
    obtain ⟨n, level, rfl⟩ := Option.map_eq_some_iff.mp rank
    obtain ⟨entry, found, rfl⟩ := Option.map_eq_some_iff.mp level
    exact every entry (List.mem_of_find?_eq_some found)
  | paren => cases rank
  | subscript base => cases rank
  | call callee => cases rank
  | between condition => cases rank
  | pair front => cases rank; decide
  | cast type => cases rank; decide
  | otherwise condition whenTrue => cases rank; decide
  | assign sign target => cases rank; decide

end Frame

/-- Closes the frames that hold their operand at least this tightly. -/
def settle (k : Nat) : List Frame → Phrase → List Frame × Phrase
  | [], p => ([], p)
  | f :: fs, p =>
    match f.rank? with
    | some r => if k ≤ r then settle k fs (f.close p) else (f :: fs, p)
    | none => (f :: fs, p)

/-- Reads a lexeme where an operand is expected. -/
def stepOperand (fs : List Frame) (t : String) : Option (List Frame × Mode) :=
  if isName t then some (fs, .operator (.name t))
  else if isUnsignedNumeral t.toList then some (fs, .operator (.numeral t))
  else if t ∈ frontSigns ∨ t ∈ tightSigns then some (.before t :: fs, .operand)
  else if t = "(" then some (.paren :: fs, .operand)
  else match fs with
    | .paren :: fs => if typeWords.contains t then some (fs, .type [t]) else none
    | .call f :: fs => if t = ")" then some (fs, .operator (.invoke f)) else none
    | _ => none

/-- Reads a lexeme behind some words of a type. -/
def stepType (fs : List Frame) (words : List String) (t : String) : Option (List Frame × Mode) :=
  if t = ")" then
    match fs with
    | .before "sizeof" :: fs => some (fs, .operator (.sizeOf words))
    | fs => some (.cast words :: fs, .operand)
  else some (fs, .type (words ++ [t]))

/-- A subscript ends. -/
def endSubscript : List Frame × Phrase → Option (List Frame × Mode)
  | (.subscript b :: fs, i) => some (fs, .operator (.subscript b i))
  | _ => none

/-- Brackets or arguments end. -/
def endParen : List Frame × Phrase → Option (List Frame × Mode)
  | (.paren :: fs, p) => some (fs, .operator p)
  | (.call f :: fs, a) => some (fs, .operator (.call f a))
  | _ => none

/-- The first branch of a conditional ends. -/
def endBranch : List Frame × Phrase → Option (List Frame × Mode)
  | (.between c :: fs, p) => some (.otherwise c p :: fs, .operand)
  | _ => none

/-- A comma stands behind an argument, or else in an expression. -/
def endItem : List Frame × Phrase → Option (List Frame × Mode)
  | (.call f :: fs, front) => some (.pair front :: .call f :: fs, .operand)
  | (fs, l) => some (.binary "," l :: fs, .operand)

/-- Reads a lexeme behind an operand. -/
def stepOperator (fs : List Frame) (p : Phrase) (t : String) : Option (List Frame × Mode) :=
  if t ∈ suffixSigns then some (fs, .operator (.suffix p t))
  else if t ∈ memberSigns then some (fs, .field p t)
  else if t = "[" then some (.subscript p :: fs, .operand)
  else if t = "(" then some (.call p :: fs, .operand)
  else if t = "]" then endSubscript (settle 0 fs p)
  else if t = ")" then endParen (settle 0 fs p)
  else if t = ":" then endBranch (settle 0 fs p)
  else if t = "," then endItem (settle 0 fs p)
  else if t = "?" then some (.between (settle 3 fs p).2 :: (settle 3 fs p).1, .operand)
  else if t ∈ assignSigns then some (.assign t (settle 13 fs p).2 :: (settle 13 fs p).1, .operand)
  else (binaryLevel? t).map fun n =>
    (.binary t (settle n.rank fs p).2 :: (settle n.rank fs p).1, .operand)

/-- Reads a lexeme. -/
def step : List Frame × Mode → String → Option (List Frame × Mode)
  | (fs, .operand), t => stepOperand fs t
  | (fs, .operator p), t => stepOperator fs p t
  | (fs, .type words), t => stepType fs words t
  | (fs, .field b sign), t => if isName t then some (fs, .operator (.member b sign t)) else none

/-- The phrase that is read when all lexemes are. -/
def finish : List Frame × Mode → Option Phrase
  | (fs, .operator p) => if (settle 0 fs p).1.isEmpty then some (settle 0 fs p).2 else none
  | _ => none

/-- The phrase of lexemes. -/
def parse (ts : List String) : Option Phrase := (ts.foldlM step ([], .operand)).bind finish

example : parse ["-", "a", "[", "i", "]", "*", "b", "+", "c", "*", "d"] =
    some (.binary "+" (.binary "*" (.before "-" (.subscript (.name "a") (.name "i"))) (.name "b"))
      (.binary "*" (.name "c") (.name "d"))) := by decide +kernel

/-! ### What is derived is read -/

/-- Whether an expression of a level may stand behind these frames. -/
def Admits (n : Level) (fs : List Frame) : Prop :=
  match n with
  | .expression => ∀ f ∈ fs.head?, f.rank? = none ∧ ∀ callee, f ≠ .call callee
  | .arguments => ∃ callee rest, fs = .call callee :: rest
  | n => ∀ f ∈ fs.head?, ∀ r ∈ f.rank?, r < n.limit

theorem Admits.next {n : Level} {fs : List Frame} (admits : Admits n fs) : Admits n.next fs := by
  have looser {k l : Nat} (le : k ≤ l) (below : ∀ f ∈ fs.head?, ∀ r ∈ f.rank?, r < k) :
      ∀ f ∈ fs.head?, ∀ r ∈ f.rank?, r < l :=
    fun f head r rank => Nat.lt_of_lt_of_le (below f head r rank) le
  cases n with
  | expression =>
    intro f head r rank
    rw [(admits f head).1] at rank
    cases rank
  | arguments =>
    obtain ⟨callee, rest, rfl⟩ := admits
    intro f head r rank
    cases Option.some.inj head
    cases rank
  | assignment | conditional | either | both | bitOr | bitXor | bitAnd | equality | relational | shift
  | additive | multiplicative | cast | unary | simple => exact looser (by decide) admits

/-- A level admits a frame that holds its operand less tightly. -/
theorem Admits.of_lt {n : Level} {f : Frame} {r : Nat} (rank : f.rank? = some r) (below : r < n.limit)
    (fs : List Frame) : Admits n (f :: fs) := by
  have only : ∀ g ∈ (f :: fs).head?, ∀ k ∈ g.rank?, k < n.limit := by
    intro g head k found
    cases Option.some.inj head
    cases rank.symm.trans found
    exact below
  cases n with
  | expression => exact absurd below (Nat.not_lt_zero r)
  | arguments => exact absurd below (Nat.not_lt_zero r)
  | assignment | conditional | either | both | bitOr | bitXor | bitAnd | equality | relational | shift
  | additive | multiplicative | cast | unary | simple => exact only

/-- Any expression may stand where a closing lexeme is waited for. -/
theorem Admits.expression (f : Frame) (waits : f.rank? = none) (noCall : ∀ callee, f ≠ .call callee)
    (fs : List Frame) : Admits .expression (f :: fs) := by
  intro g head
  cases Option.some.inj head
  exact ⟨waits, noCall⟩

/-- What a level admits holds its operand less tightly than the level. -/
theorem Admits.ends {n : Level} {fs : List Frame} (admits : Admits n fs) {k : Nat} (le : n.limit ≤ k) :
    ∀ f ∈ fs.head?, ∀ r ∈ f.rank?, r < k := by
  intro f head r rank
  cases n with
  | expression =>
    rw [(admits f head).1] at rank
    cases rank
  | arguments =>
    obtain ⟨callee, rest, rfl⟩ := admits
    cases Option.some.inj head
    cases rank
  | assignment | conditional | either | both | bitOr | bitXor | bitAnd | equality | relational | shift
  | additive | multiplicative | cast | unary | simple => exact Nat.lt_of_lt_of_le (admits f head r rank) le

/-- Frames that hold their operand at least this tightly. -/
def Holding (k : Nat) (pending : List Frame) : Prop := ∀ f ∈ pending, ∃ r, f.rank? = some r ∧ k ≤ r

/-- The phrase that frames are with their last operand. -/
def closeAll (pending : List Frame) (p : Phrase) : Phrase := pending.foldl (fun p f => f.close p) p

/-- Frames that hold their operand at least this tightly are closed, down to one that does not. -/
theorem settle_append {k : Nat} {pending fs : List Frame} (holding : Holding k pending)
    (ends : ∀ f ∈ fs.head?, ∀ r ∈ f.rank?, r < k) (p : Phrase) :
    settle k (pending ++ fs) p = (fs, closeAll pending p) := by
  induction pending generalizing p with
  | nil =>
    cases fs with
    | nil => rfl
    | cons f fs =>
      rw [List.nil_append, settle]
      split
      · next r rank => exact if_neg (Nat.not_le_of_lt (ends f rfl r rank))
      · rfl
  | cons f pending ih =>
    obtain ⟨r, rank, le⟩ := holding f List.mem_cons_self
    rw [List.cons_append, settle, rank]
    exact (if_pos le).trans (ih (fun g member => holding g (List.mem_cons_of_mem _ member)) (f.close p))

/-- What reading the lexemes of an expression leads to: its phrase, of which some frames may still wait. -/
def Runs (n : Level) (ts : List String) (p : Phrase) (fs : List Frame) : Prop :=
  ∃ pending x, ts.foldlM step (fs, .operand) = some (pending ++ fs, .operator x) ∧
    Holding n.rank pending ∧ closeAll pending x = p

namespace Runs

variable {n : Level} {ts : List String} {p : Phrase} {fs : List Frame}

/-- Reading that ends with the phrase. -/
theorem of_eq (run : ts.foldlM step (fs, .operand) = some (fs, .operator p)) : Runs n ts p fs :=
  ⟨[], p, run, nofun, rfl⟩

theorem mono {n' : Level} (run : Runs n ts p fs) (le : n'.rank ≤ n.rank) : Runs n' ts p fs := by
  obtain ⟨pending, x, reads, holding, closed⟩ := run
  refine ⟨pending, x, reads, fun f member => ?_, closed⟩
  obtain ⟨r, rank, tight⟩ := holding f member
  exact ⟨r, rank, Nat.le_trans le tight⟩

/-- Nothing waits behind a simple expression. -/
theorem simple (run : Runs .simple ts p fs) : ts.foldlM step (fs, .operand) = some (fs, .operator p) := by
  obtain ⟨pending, x, reads, holding, closed⟩ := run
  cases pending with
  | nil => exact closed ▸ reads
  | cons f pending =>
    obtain ⟨r, rank, tight⟩ := holding f List.mem_cons_self
    exact absurd (Frame.rank?_lt rank) (Nat.not_lt_of_le tight)

/-- A frame is pushed in front of the expression, and holds it. -/
theorem push {m : Level} {us : List String} {f : Frame} {r : Nat} (run : Runs m ts p (f :: fs))
    (pushes : us.foldlM step (fs, .operand) = some (f :: fs, .operand)) (rank : f.rank? = some r)
    (tight : n.rank ≤ r) (holds : n.rank ≤ m.rank) : Runs n (us ++ ts) (f.close p) fs := by
  obtain ⟨pending, x, reads, holding, closed⟩ := run
  refine ⟨pending ++ [f], x, ?_, ?_, ?_⟩
  · rw [List.foldlM_append, pushes]
    exact reads.trans (by rw [List.append_assoc, List.singleton_append])
  · intro g member
    rcases List.mem_append.mp member with inside | last
    · obtain ⟨s, found, le⟩ := holding g inside
      exact ⟨s, found, Nat.le_trans holds le⟩
    · cases List.mem_singleton.mp last
      exact ⟨r, rank, tight⟩
  · rw [closeAll, List.foldl_append, ← closed]
    rfl

/-- A lexeme that settles what waits behind the expression. -/
theorem settles {k : Nat} {t : String} {g : List Frame × Phrase → Option (List Frame × Mode)}
    (run : Runs n ts p fs) (tight : k ≤ n.rank) (ends : ∀ f ∈ fs.head?, ∀ r ∈ f.rank?, r < k)
    (goes : ∀ gs q, step (gs, .operator q) t = g (settle k gs q)) :
    (ts ++ [t]).foldlM step (fs, .operand) = g (fs, p) := by
  obtain ⟨pending, x, reads, holding, closed⟩ := run
  have loose : Holding k pending := fun f member =>
    (holding f member).imp fun r found => ⟨found.1, Nat.le_trans tight found.2⟩
  rw [List.foldlM_append, reads]
  change (step (pending ++ fs, .operator x) t >>= pure) = _
  rw [bind_pure, goes, settle_append loose ends, closed]

/-- A lexeme that closes the frame behind which the expression stands. -/
theorem closes {f : Frame} {t : String} {g : List Frame × Phrase → Option (List Frame × Mode)}
    (run : Runs n ts p (f :: fs)) (waits : f.rank? = none)
    (goes : ∀ gs q, step (gs, .operator q) t = g (settle 0 gs q)) :
    (ts ++ [t]).foldlM step (f :: fs, .operand) = g (f :: fs, p) := by
  refine run.settles (Nat.zero_le _) (fun g head r rank => ?_) goes
  cases Option.some.inj head
  cases waits.symm.trans rank

end Runs

/-! ### Single lexemes -/

theorem isName_of_isUnsignedNumeral {x : String} (numeral : isUnsignedNumeral x.toList) :
    isName x = false := by
  have none : isWord x = false := by
    obtain ⟨point, digit, rest, chars, front, first, -⟩ := isUnsignedNumeral_cases numeral
    rw [isWord, chars]
    rcases front with rfl | rfl
    · change (isLetter digit && _) = false
      rw [isLetter_eq_false first, Bool.false_and]
    · rfl
  rw [isName, none, Bool.false_and]

theorem step_name {x : String} (is : isName x) (fs : List Frame) :
    step (fs, .operand) x = some (fs, .operator (.name x)) := if_pos is

theorem step_numeral {x : String} (is : isUnsignedNumeral x.toList) (fs : List Frame) :
    step (fs, .operand) x = some (fs, .operator (.numeral x)) := by
  change stepOperand fs x = _
  unfold stepOperand
  rw [isName_of_isUnsignedNumeral is, if_neg Bool.false_ne_true, if_pos is]

theorem step_before {sign : String} (among : sign ∈ frontSigns ∨ sign ∈ tightSigns) (fs : List Frame) :
    step (fs, .operand) sign = some (.before sign :: fs, .operand) := by
  have plain : ∀ s ∈ frontSigns ++ tightSigns, isName s = false ∧
      isUnsignedNumeral s.toList = false := by decide
  obtain ⟨noName, noNumeral⟩ := plain sign (List.mem_append.mpr among)
  change stepOperand fs sign = _
  unfold stepOperand
  rw [noName, noNumeral, if_neg Bool.false_ne_true, if_neg Bool.false_ne_true, if_pos among]

theorem step_paren (fs : List Frame) : step (fs, .operand) "(" = some (.paren :: fs, .operand) := by
  change stepOperand fs "(" = _
  unfold stepOperand
  rw [if_neg (by decide), if_neg (by decide), if_neg (by decide), if_pos rfl]

theorem step_invoke (callee : Phrase) (fs : List Frame) :
    step (.call callee :: fs, .operand) ")" = some (fs, .operator (.invoke callee)) := by
  change stepOperand (.call callee :: fs) ")" = _
  unfold stepOperand
  rw [if_neg (by decide), if_neg (by decide), if_neg (by decide), if_neg (by decide)]
  exact if_pos rfl

/-- Words of a type in brackets. -/
theorem steps_type {type : List String} (is : isTypeName type) (fs : List Frame) :
    type.foldlM step (.paren :: fs, .operand) = some (fs, .type type) := by
  have plain : ∀ w ∈ typeWords, isName w = false ∧ isUnsignedNumeral w.toList = false ∧
      ¬(w ∈ frontSigns ∨ w ∈ tightSigns) ∧ w ≠ "(" ∧ w ≠ ")" := by decide
  have more (read : List String) {words : List String}
      (all : words.all fun v => typeWords.contains v || v == "*") :
      words.foldlM step (fs, .type read) = some (fs, .type (read ++ words)) := by
    induction words generalizing read with
    | nil => rw [List.append_nil]; rfl
    | cons w words ih =>
      rw [List.all_cons, Bool.and_eq_true, Bool.or_eq_true, List.contains_iff_mem, beq_iff_eq] at all
      have inside : w ≠ ")" := by
        rcases all.1 with word | rfl
        · exact (plain w word).2.2.2.2
        · decide
      have goes : step (fs, .type read) w = some (fs, .type (read ++ [w])) := if_neg inside
      rw [List.foldlM_cons, goes]
      exact (ih (read ++ [w]) all.2).trans (by rw [List.append_assoc, List.singleton_append])
  cases type with
  | nil => cases is
  | cons w words =>
    rw [isTypeName, Bool.and_eq_true, List.contains_iff_mem] at is
    obtain ⟨noName, noNumeral, noSign, noBracket, -⟩ := plain w is.1
    have first : step (.paren :: fs, .operand) w = some (fs, .type [w]) := by
      change stepOperand (.paren :: fs) w = _
      unfold stepOperand
      rw [noName, noNumeral, if_neg Bool.false_ne_true, if_neg Bool.false_ne_true,
        if_neg noSign, if_neg noBracket]
      exact if_pos (List.contains_iff_mem.mpr is.1)
    rw [List.foldlM_cons, first]
    exact more [w] is.2

theorem step_cast (type : List String) {fs : List Frame} (free : ∀ rest, fs ≠ .before "sizeof" :: rest) :
    step (fs, .type type) ")" = some (.cast type :: fs, .operand) := by
  change stepType fs type ")" = _
  unfold stepType
  rw [if_pos rfl]
  split
  · next rest => exact absurd rfl (free rest)
  · rfl

theorem step_suffix {sign : String} (among : sign ∈ suffixSigns) (fs : List Frame) (p : Phrase) :
    step (fs, .operator p) sign = some (fs, .operator (.suffix p sign)) := if_pos among

theorem step_member {sign : String} (among : sign ∈ memberSigns) (fs : List Frame) (p : Phrase) :
    step (fs, .operator p) sign = some (fs, .field p sign) := by
  have plain : ∀ s ∈ memberSigns, s ∉ suffixSigns := by decide
  exact (if_neg (plain sign among)).trans (if_pos among)

theorem step_subscript (fs : List Frame) (p : Phrase) :
    step (fs, .operator p) "[" = some (.subscript p :: fs, .operand) := by
  simp [step, stepOperator, suffixSigns, memberSigns]

theorem step_call (fs : List Frame) (p : Phrase) :
    step (fs, .operator p) "(" = some (.call p :: fs, .operand) := by
  simp [step, stepOperator, suffixSigns, memberSigns]

theorem step_endSubscript (fs : List Frame) (p : Phrase) :
    step (fs, .operator p) "]" = endSubscript (settle 0 fs p) := by
  simp [step, stepOperator, suffixSigns, memberSigns]

theorem step_endParen (fs : List Frame) (p : Phrase) :
    step (fs, .operator p) ")" = endParen (settle 0 fs p) := by
  simp [step, stepOperator, suffixSigns, memberSigns]

theorem step_endBranch (fs : List Frame) (p : Phrase) :
    step (fs, .operator p) ":" = endBranch (settle 0 fs p) := by
  simp [step, stepOperator, suffixSigns, memberSigns]

theorem step_endItem (fs : List Frame) (p : Phrase) :
    step (fs, .operator p) "," = endItem (settle 0 fs p) := by
  simp [step, stepOperator, suffixSigns, memberSigns]

theorem step_question (fs : List Frame) (p : Phrase) :
    step (fs, .operator p) "?" = some (.between (settle 3 fs p).2 :: (settle 3 fs p).1, .operand) := by
  simp [step, stepOperator, suffixSigns, memberSigns]

theorem step_assign {sign : String} (among : sign ∈ assignSigns) (fs : List Frame) (p : Phrase) :
    step (fs, .operator p) sign =
      some (.assign sign (settle 13 fs p).2 :: (settle 13 fs p).1, .operand) := by
  have plain : ∀ s ∈ assignSigns, s ∉ suffixSigns ∧ s ∉ memberSigns ∧
      s ∉ ["[", "(", "]", ")", ":", ",", "?"] := by decide
  obtain ⟨noSuffix, noMember, others⟩ := plain sign among
  simp only [List.mem_cons, not_or] at others
  change stepOperator fs p sign = _
  rw [stepOperator, if_neg noSuffix, if_neg noMember, if_neg others.1, if_neg others.2.1,
    if_neg others.2.2.1, if_neg others.2.2.2.1, if_neg others.2.2.2.2.1, if_neg others.2.2.2.2.2.1,
    if_neg others.2.2.2.2.2.2.1, if_pos among]

theorem step_binary {sign : String} {n : Level} (level : (sign, n) ∈ binaryLevels)
    (noComma : n ≠ .expression) (fs : List Frame) (p : Phrase) :
    step (fs, .operator p) sign =
      some (.binary sign (settle n.rank fs p).2 :: (settle n.rank fs p).1, .operand) := by
  have plain : ∀ e ∈ binaryLevels, e.2 ≠ .expression → e.1 ∉ suffixSigns ∧ e.1 ∉ memberSigns ∧
      e.1 ∉ assignSigns ∧ e.1 ∉ ["[", "(", "]", ")", ":", ",", "?"] ∧ binaryLevel? e.1 = some e.2 := by
    decide
  obtain ⟨noSuffix, noMember, noAssign, others, found⟩ := plain _ level noComma
  simp only [List.mem_cons, not_or] at others
  change stepOperator fs p sign = _
  rw [stepOperator, if_neg noSuffix, if_neg noMember, if_neg others.1, if_neg others.2.1,
    if_neg others.2.2.1, if_neg others.2.2.2.1, if_neg others.2.2.2.2.1, if_neg others.2.2.2.2.2.1,
    if_neg others.2.2.2.2.2.2.1, if_neg noAssign, found]
  rfl

/-! ### Derivations -/

theorem foldlM_of_eq {ts us : List String} {state middle : List Frame × Mode}
    (run : ts.foldlM step state = some middle) :
    (ts ++ us).foldlM step state = us.foldlM step middle := by
  rw [List.foldlM_append, run]
  rfl

theorem foldlM_singleton (t : String) (state : List Frame × Mode) : [t].foldlM step state = step state t :=
  bind_pure _

theorem foldlM_cons {t : String} {us : List String} {state middle : List Frame × Mode}
    (run : step state t = some middle) : (t :: us).foldlM step state = us.foldlM step middle := by
  rw [List.foldlM_cons, run]
  rfl

/-- A binary operator behind its left operand. A comma is one where no arguments are read. -/
theorem Runs.operator {n : Level} {ts : List String} {l : Phrase} {fs : List Frame} {sign : String}
    (run : Runs n ts l fs) (level : (sign, n) ∈ binaryLevels) (admits : Admits n fs)
    (left : n.limit ≤ n.rank) :
    (ts ++ [sign]).foldlM step (fs, .operand) = some (.binary sign l :: fs, .operand) := by
  by_cases comma : n = .expression
  · subst comma
    have sign : ∀ e ∈ binaryLevels, e.2 = .expression → e.1 = "," := by decide
    cases sign _ level rfl
    refine (run.settles (Nat.le_refl 0) (admits.ends left) step_endItem).trans ?_
    cases fs with
    | nil => rfl
    | cons f fs =>
      cases f with
      | call callee => exact absurd rfl ((admits _ rfl).2 callee)
      | paren | subscript | between | pair | before | cast | binary | otherwise | assign => rfl
  · exact run.settles (Nat.le_refl _) (admits.ends left)
      (g := fun found => some (.binary sign found.2 :: found.1, .operand)) (step_binary level comma)

/-- **What is derived is read**, from any stack that admits its level. -/
theorem Derives.runs {n : Level} {ts : List String} {p : Phrase} (derives : Derives n ts p) {fs : List Frame}
    (admits : Admits n fs) : Runs n ts p fs := by
  have any (fs : List Frame) : Admits .simple fs := by
    intro f head r rank
    exact Frame.rank?_lt rank
  induction derives generalizing fs with
  | weaken tighter ih => exact (ih admits.next).mono (Level.rank_le_next _)
  | name is => exact .of_eq ((foldlM_singleton _ _).trans (step_name is fs))
  | numeral is => exact .of_eq ((foldlM_singleton _ _).trans (step_numeral is fs))
  | paren inner ih =>
    refine .of_eq ?_
    rw [List.cons_append, foldlM_cons (step_paren fs)]
    exact (ih (.expression .paren rfl nofun fs)).closes rfl step_endParen
  | @subscript ts us b i base index ihBase ihIndex =>
    refine .of_eq ?_
    rw [List.append_assoc, foldlM_of_eq (ihBase (any fs)).simple, List.cons_append,
      foldlM_cons (step_subscript fs b)]
    exact (ihIndex (.expression (.subscript b) rfl nofun fs)).closes rfl step_endSubscript
  | @invoke ts f callee ih =>
    refine .of_eq ?_
    rw [foldlM_of_eq (ih (any fs)).simple, foldlM_cons (step_call fs f), foldlM_singleton]
    exact step_invoke f fs
  | @call ts us f a callee arguments ihCallee ihArguments =>
    refine .of_eq ?_
    rw [List.append_assoc, foldlM_of_eq (ihCallee (any fs)).simple, List.cons_append,
      foldlM_cons (step_call fs f)]
    exact (ihArguments ⟨f, fs, rfl⟩).closes rfl step_endParen
  | @pair ts us f l front last ihFront ihLast =>
    obtain ⟨callee, rest, rfl⟩ := admits
    have pushes := (ihFront ⟨callee, rest, rfl⟩).closes rfl step_endItem
    rw [← List.singleton_append, ← List.append_assoc]
    exact (ihLast (.of_lt rfl (by decide) _)).push pushes rfl (Nat.le_refl 0) (Nat.zero_le _)
  | @member ts b sign x base among field ih =>
    refine .of_eq ?_
    rw [foldlM_of_eq (ih (any fs)).simple, foldlM_cons (step_member among fs b), foldlM_singleton]
    exact if_pos field
  | @suffix ts p sign operand among ih =>
    refine .of_eq ?_
    rw [foldlM_of_eq (ih (any fs)).simple, foldlM_singleton]
    exact step_suffix among fs p
  | @tight ts p sign among operand ih =>
    have rank : (Frame.before sign).rank? = some 14 :=
      congrArg some (if_pos (List.contains_iff_mem.mpr among))
    have pushes := (foldlM_singleton sign (fs, .operand)).trans (step_before (Or.inr among) fs)
    exact (ih (.of_lt rank (by decide) fs)).push pushes rank (by decide) (Nat.le_refl _)
  | @before ts p sign among operand ih =>
    have rank : (Frame.before sign).rank? = some 13 := by
      have none : ∀ s ∈ frontSigns, tightSigns.contains s = false := by decide
      rw [Frame.rank?, none sign among, if_neg Bool.false_ne_true]
    have pushes := (foldlM_singleton sign (fs, .operand)).trans (step_before (Or.inl among) fs)
    exact (ih (.of_lt rank (by decide) fs)).push pushes rank (Nat.le_refl _) (Nat.le_refl _)
  | @sizeOf type is =>
    refine .of_eq ?_
    rw [List.cons_append, List.cons_append, foldlM_cons (step_before (Or.inr (by decide)) fs),
      foldlM_cons (step_paren _), foldlM_of_eq (steps_type is _), foldlM_singleton]
    rfl
  | @cast type ts p is operand ih =>
    have pushes : ("(" :: type ++ [")"]).foldlM step (fs, .operand) = some (.cast type :: fs, .operand) := by
      rw [List.cons_append, foldlM_cons (step_paren _), foldlM_of_eq (steps_type is _), foldlM_singleton]
      refine step_cast type fun rest same => ?_
      subst same
      exact absurd (admits _ rfl 14 rfl) (Nat.lt_irrefl 14)
    have all : Runs .cast _ _ fs :=
      (ih (.of_lt rfl (by decide) fs)).push pushes rfl (Nat.le_refl 13) (Nat.le_refl 13)
    rwa [List.append_assoc] at all
  | @binary n ts us l r sign level lhs rhs ihLeft ihRight =>
    have levels : ∀ e ∈ binaryLevels, e.2.rank < e.2.next.limit ∧ e.2.limit = e.2.rank ∧
        binaryLevel? e.1 = some e.2 := by decide
    obtain ⟨below, left, found⟩ := levels _ level
    have rank : (Frame.binary sign l).rank? = some n.rank := congrArg (Option.map Level.rank) found
    have pushes := (ihLeft admits).operator level admits (Nat.le_of_eq left)
    rw [← List.singleton_append, ← List.append_assoc]
    exact (ihRight (.of_lt rank below fs)).push pushes rank (Nat.le_refl _) (Level.rank_le_next n)
  | @conditional cs ts es c t e condition whenTrue whenFalse ihCondition ihTrue ihFalse =>
    have asks : (cs ++ ["?"]).foldlM step (fs, .operand) = some (.between c :: fs, .operand) :=
      (ihCondition admits.next).settles (Nat.le_refl 3) (admits.ends (Nat.le_refl 3))
        (g := fun found => some (.between found.2 :: found.1, .operand)) step_question
    have chooses := (ihTrue (.expression (.between c) rfl nofun fs)).closes rfl step_endBranch
    have pushes : (cs ++ ["?"] ++ (ts ++ [":"])).foldlM step (fs, .operand) =
        some (.otherwise c t :: fs, .operand) := (foldlM_of_eq asks).trans chooses
    have all : Runs .conditional _ (.conditional c t e) fs :=
      (ihFalse (.of_lt rfl (by decide) fs)).push pushes rfl (Nat.le_refl 2) (Nat.le_refl 2)
    simpa only [List.append_assoc, List.cons_append, List.nil_append] using all
  | @assign ts us l r sign among target value ihTarget ihValue =>
    have pushes : (ts ++ [sign]).foldlM step (fs, .operand) = some (.assign sign l :: fs, .operand) :=
      (ihTarget (admits.ends (by decide))).settles (Nat.le_refl 13) (admits.ends (by decide))
        (g := fun found => some (.assign sign found.2 :: found.1, .operand)) (step_assign among)
    rw [← List.singleton_append, ← List.append_assoc]
    exact (ihValue (.of_lt rfl (by decide) fs)).push pushes rfl (Nat.le_refl 1) (Nat.le_refl 1)

theorem Derives.parse {ts : List String} {p : Phrase} (derives : Derives .expression ts p) :
    parse ts = some p := by
  have start : Admits .expression [] := nofun
  obtain ⟨pending, x, reads, holding, closed⟩ := derives.runs start
  have nothing : ∀ f ∈ ([] : List Frame).head?, ∀ r ∈ f.rank?, r < 0 := nofun
  have settled : settle 0 (pending ++ []) x = ([], closeAll pending x) := settle_append holding nothing x
  rw [Text.parse, reads, Option.bind_some, finish, settled, closed]
  rfl

/-- **An expression is read in one way only.** -/
theorem Derives.unique {ts : List String} {p q : Phrase} (one : Derives .expression ts p)
    (other : Derives .expression ts q) : q = p :=
  Option.some.inj (other.parse.symm.trans one.parse)

end TunedKernel.Text
