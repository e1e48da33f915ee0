/-
**The words of a command line.**

An option is written `--name value`, `--name=value`, `-n value`, `-n=value` or `-nvalue`; switches
have no value, and several of one letter may share a word. After the word `--` nothing is an option
any more, and a lone hyphen never is one.

* `Opt` — an option that is understood.
* `Item`, `items` — what words say, one item after the other, up to the first that says nothing.
* `Given`, `Given.read?` — the options and operands of words that are all understood, with no
  option given twice.
-/

namespace TunedKernel.CommandLine

/-- An option that is understood. -/
structure Opt where
  long : String
  short : Option Char
  /-- A value has to follow; an option without one is a switch. -/
  takesValue : Bool
deriving DecidableEq, Repr

/-- An option with a value and no short name. -/
def Opt.valued (long : String) : Opt := ⟨long, none, true⟩

/-- What a part of the words says. -/
inductive Item where
  /-- An option; the value of a switch is empty. -/
  | option (option : Opt) (value : String)
  | operand (text : String)
  /-- An unknown option, a missing value, or a value where none belongs. -/
  | invalid
deriving DecidableEq, Repr

/-- What one word says, and the option that waits for its value in the next one. -/
abbrev Reading := List Item × Option Opt

/-- A word after two hyphens. -/
def readLong (options : List Opt) (word : List Char) : Reading :=
  let name := String.ofList (word.takeWhile fun c => c != '=')
  match options.find? fun o => o.long == name with
  | none => ([.invalid], none)
  | some o =>
    match (word.dropWhile fun c => c != '=').tail?, o.takesValue with
    | some value, true => ([.option o (String.ofList value)], none)
    | some _, false => ([.invalid], none)
    | none, true => ([], some o)
    | none, false => ([.option o ""], none)

/-- The value that follows a letter in the same word. -/
def attachedValue? : List Char → Option String
  | [] => none
  | '=' :: value => some (String.ofList value)
  | value => some (String.ofList value)

/-- A word after one hyphen. -/
def readShort (options : List Opt) : List Char → Reading
  | [] => ([], none)
  | c :: rest =>
    match options.find? fun o => o.short == some c with
    | none => ([.invalid], none)
    | some o =>
      if o.takesValue then
        match attachedValue? rest with
        | some value => ([.option o value], none)
        | none => ([], some o)
      else
        let (items, waiting) := readShort options rest
        (.option o "" :: items, waiting)

/-- A word that is not the value of an option. -/
def readWord (options : List Opt) (word : String) : Reading :=
  match word.toList with
  | '-' :: '-' :: rest => readLong options rest
  | ['-'] => ([.operand word], none)
  | '-' :: rest => readShort options rest
  | _ => ([.operand word], none)

/-- Whether a word is taken for an option. -/
def looksLikeOption (word : String) : Bool := word.startsWith "-" && word != "-"

/-- What words say. -/
def items (options : List Opt) : List String → List Item
  | [] => []
  | "--" :: rest => rest.map .operand
  | word :: rest =>
    match readWord options word, rest with
    | (items₀, none), rest => items₀ ++ items options rest
    | (items₀, some _), [] => items₀ ++ [.invalid]
    | (items₀, some o), value :: rest =>
      if looksLikeOption value then items₀ ++ [.invalid]
      else items₀ ++ .option o value :: items options rest

/-- The options and operands of a command. -/
structure Given where
  options : List (Opt × String)
  operands : List String
deriving DecidableEq, Repr

namespace Given

/-- Nothing given yet. -/
def empty : Given := ⟨[], []⟩

/-- Takes one more item. -/
def add? (given : Given) : Item → Option Given
  | .option o value =>
    if given.options.any fun entry => entry.1 == o then none
    else some { given with options := given.options ++ [(o, value)] }
  | .operand text => some { given with operands := given.operands ++ [text] }
  | .invalid => none

/-- The options and operands of words that are all understood. -/
def read? (options : List Opt) (words : List String) : Option Given :=
  (items options words).foldlM add? empty

/-- The value of an option. -/
def value? (given : Given) (long : String) : Option String :=
  (given.options.find? fun entry => entry.1.long == long).map Prod.snd

end Given

end TunedKernel.CommandLine
