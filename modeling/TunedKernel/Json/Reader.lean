/-
**Reading JSON.**

The reader consumes one token at a time. `Frame` is a list or record that has been opened and not
yet closed, and `State` is the open frames together with what may come next.

* `Numeral.parts` — the significand of a numeral, within 64 bits, and the power of ten it is scaled
  by; `Numeral.datum` — the value of a numeral, which is broken when it is too large.
* `State.step` — the state after a token, when the token may stand there.
* `State.put` — the state after a complete value.
* `read?` — the value of a text: its tokens, taken in order, leave one complete value.
-/

import TunedKernel.Data.Datum
import TunedKernel.Json.Token
import TunedKernel.Text.Precision

namespace TunedKernel.Json

open TunedKernel.Text

/-! ### Values of single tokens -/

/-- The power of ten that a numeral's exponent stands for. -/
def Numeral.power (numeral : Numeral) : Int :=
  match numeral.exponent with
  | some (true, digits) => -(readDecimal digits : Int)
  | some (false, digits) => readDecimal digits
  | none => 0

/-- The significand of a numeral, and the power of ten that it is scaled by. It has as many of the
digits before the point, and then of those after it, as 64 bits hold; the digits left over before
the point count as places only, and those left over after it do not count. -/
def Numeral.parts (numeral : Numeral) : Nat × Int :=
  let fraction := numeral.fraction.getD []
  let (whole, places) := readWhileFits 0 numeral.whole
  let (significand, dropped) := readWhileFits whole fraction
  (significand, numeral.power + places.length - (fraction.length - dropped.length : Nat))

/-- Whether a numeral is too large for a number. -/
def Numeral.isTooLarge (numeral : Numeral) : Bool :=
  stepwiseExceedsDouble numeral.parts.1 numeral.parts.2

/-- The integer of 64 bits that a numeral without point and exponent stands for. It may be signed,
but `-0` is no integer. -/
def Numeral.integer? (numeral : Numeral) : Option Int :=
  let n := readDecimal numeral.whole
  if numeral.fraction.isSome || numeral.exponent.isSome then none
  else if numeral.negative then
    if 0 < n ∧ n ≤ UInt64.size / 2 then some (-(n : Int)) else none
  else if n < UInt64.size then some (n : Int)
  else none

/-- The value of a numeral. One that is not too large and no integer is kept as a number that nobody
asks for. -/
def Numeral.datum (numeral : Numeral) : Datum :=
  match numeral.integer? with
  | some n => .integer n
  | none => if numeral.isTooLarge then .broken else .other

/-! ### Frames and states -/

/-- A list or record that is open. The members of a record with an unreadable name are marked by
`named := false`. Items and members are kept last first. -/
inductive Frame where
  | list (items : List Datum)
  | record (named : Bool) (members : List (String × Datum)) (name : Option String)

/-- What may come next. -/
inductive Expected where
  | value
  /-- The first item of a list, or its end. -/
  | itemOrEnd
  /-- The first name of a record, or its end. -/
  | nameOrEnd
  | name
  | colon
  /-- A comma, or the end of the innermost frame. -/
  | separator
  /-- Nothing: the value is complete. -/
  | nothing (value : Datum)

/-- The open frames, innermost first, and what may come next. -/
structure State where
  frames : List Frame
  expected : Expected

/-- Before the first token. -/
def State.start : State := ⟨[], .value⟩

/-- The state after a complete value: it joins the innermost frame, or it is the whole. -/
def State.put (frames : List Frame) (value : Datum) : State :=
  match frames with
  | [] => ⟨[], .nothing value⟩
  | .list items :: outer => ⟨.list (value :: items) :: outer, .separator⟩
  | .record named members name :: outer =>
    match name with
    | some name => ⟨.record named ((name, value) :: members) none :: outer, .separator⟩
    | none => ⟨.record false members none :: outer, .separator⟩

/-- The value of a frame that ends. -/
def Frame.close : Frame → Datum
  | .list items => .list items.reverse
  | .record true members _ => .record members.reverse
  | .record false _ _ => .broken

/-- Whether a frame is a list. -/
def Frame.isList : Frame → Bool
  | .list _ => true
  | .record .. => false

/-- The value of a token that is a value by itself. -/
def Token.datum? : Token → Option Datum
  | .null => some .null
  | .flag value => some (.flag value)
  | .number numeral => some numeral.datum
  | .string (some text) => some (.text text)
  | .string none => some .broken
  | _ => none

/-- The state after the token that begins a value. -/
def State.begin (frames : List Frame) (token : Token) : Option State :=
  match token with
  | .openList => some ⟨.list [] :: frames, .itemOrEnd⟩
  | .openRecord => some ⟨.record true [] none :: frames, .nameOrEnd⟩
  | token => token.datum?.map (State.put frames)

/-- The state after the end of the innermost frame, when it is of the kind that ends. -/
def State.finish (frames : List Frame) (list : Bool) : Option State :=
  match frames with
  | frame :: outer => if frame.isList = list then some (State.put outer frame.close) else none
  | [] => none

/-- The state after the name of a member. -/
def State.takeName (frames : List Frame) (name : Option String) : Option State :=
  match frames with
  | .record named members _ :: outer =>
    some ⟨.record (named && name.isSome) members name :: outer, .colon⟩
  | _ => none

/-- The state after a token, when the token may stand there. -/
def State.step (state : State) (token : Token) : Option State :=
  match state.expected with
  | .value => State.begin state.frames token
  | .itemOrEnd =>
    match token with
    | .closeList => State.finish state.frames true
    | token => State.begin state.frames token
  | .nameOrEnd =>
    match token with
    | .closeRecord => State.finish state.frames false
    | .string name => State.takeName state.frames name
    | _ => none
  | .name =>
    match token with
    | .string name => State.takeName state.frames name
    | _ => none
  | .colon =>
    match token with
    | .colon => some ⟨state.frames, .value⟩
    | _ => none
  | .separator =>
    match token with
    | .comma =>
      match state.frames with
      | .list _ :: _ => some ⟨state.frames, .value⟩
      | .record .. :: _ => some ⟨state.frames, .name⟩
      | [] => none
    | .closeList => State.finish state.frames true
    | .closeRecord => State.finish state.frames false
    | _ => none
  | .nothing _ => none

/-- The value that a state has completed. -/
def State.value? (state : State) : Option Datum :=
  match state.expected with
  | .nothing value => some value
  | _ => none

/-- The value of a text: all of it is one value, with blanks around the tokens. -/
def read? (text : String) : Option Datum := do
  let tokens ← tokens text.toList
  let final ← tokens.foldlM State.step State.start
  final.value?

end TunedKernel.Json
