/-
**Walks: how the workers split a range.**

A walk names the loop that a worker runs over its part of a range, with the declarations before the
loop and at the head of its block.

* `Walk.strided` — a worker starts at its own number and strides over the range by the number of
  workers.
* `Walk.chunked` — a worker walks one chunk of consecutive elements.
* `Walk.uniform` — all workers of a group make the same trips; the element of a worker may lie
  beyond the range on the last one, so the block has to guard it.
* `Walk.byGroup` — the workers of one group stride over a range together.
* `Walk.stepped`, `Walk.counted`, `Walk.cooperative` — loops by constant steps: of one worker,
  unrolled, or shared by the workers of a group.
* `Walk.around` — the code of a walk around a block.
* `Walk.enter` — a walk on a page, with its block left open.
-/

import TunedKernel.Kernel.Code

namespace TunedKernel

/-- A loop over a range, with the declarations around its header. -/
structure Walk where
  before : List Step
  loop : Loop
  inside : List Step
deriving DecidableEq, Repr

namespace Walk

/-- The code of a walk around a block. -/
def around (w : Walk) (body : Code) : Code :=
  Code.ofSteps w.before ++ Code.ofLoop w.loop (Code.ofSteps w.inside ++ body)

/-- Every worker strides over the range by the number of workers. -/
def strided (counter : String) (dimension : Nat) (bound : Term) : Walk where
  before := []
  loop := {
    counter := counter
    first := .query .globalId dimension
    bound := bound
    step := some (.query .globalSize dimension)
    unrolled := false }
  inside := []

/-- Every worker walks one chunk, as long as the range divided by the number of workers and rounded
up; the last chunks are cut off at the end of the range. -/
def chunked (counter : String) (dimension : Nat) (bound : Term) : Walk :=
  let chunk := counter ++ "_chunk"
  let start := counter ++ "_start"
  let stop := counter ++ "_stop"
  let workers := Term.query .globalSize dimension
  { before := [
      .declare .index chunk (.paren (bound + workers - .number 1) / workers),
      .declare .index start (.query .globalId dimension * .name chunk),
      .declare .index stop
        (.call₂ "min" (.name start + .name chunk) (.cast ValueType.index.text bound))]
    loop := {
      counter := counter
      first := .name start
      bound := .name stop
      step := none
      unrolled := false }
    inside := [] }

/-- The walk over a range in one of the two ways to split it. -/
def split (stride : Bool) (counter : String) (dimension : Nat) (bound : Term) : Walk :=
  if stride then strided counter dimension bound else chunked counter dimension bound

/-- All workers of a group make the same trips, each with an element of its own. -/
def uniform (counter : String) (dimension : Nat) (bound : Term) : Walk :=
  let base := counter ++ "_base"
  { before := []
    loop := {
      counter := base
      first := .query .groupId dimension * .query .localSize dimension
      bound := bound
      step := some (.query .globalSize dimension)
      unrolled := false }
    inside := [.declare .index counter (.name base + .query .localId dimension)] }

/-- The workers of one group stride over a range, each from its own number. -/
def byGroup (counter : String) (lane : Term) (dimension bound : Nat) : Walk where
  before := []
  loop := {
    counter := counter
    first := lane
    bound := .count bound
    step := some (.query .localSize dimension)
    unrolled := false }
  inside := []

/-- A loop from zero by strides of a constant. -/
def stepped (counter : String) (bound : Term) (step : Nat) : Walk where
  before := []
  loop := {
    counter := counter
    first := .number 0
    bound := bound
    step := some (.count step)
    unrolled := false }
  inside := []

/-- An unrolled loop up to a constant. -/
def counted (counter : String) (bound : Nat) : Walk where
  before := []
  loop := {
    counter := counter
    first := .number 0
    bound := .count bound
    step := none
    unrolled := true }
  inside := []

/-- A loop up to a constant that the workers of a group share, by strides of their number. -/
def cooperative (counter : String) (first : Term) (bound step : Nat) : Walk where
  before := []
  loop := {
    counter := counter
    first := first
    bound := .count bound
    step := some (.count step)
    unrolled := false }
  inside := []

/-- Walks one inside the other around a block, the first one outermost. -/
def nest (walks : List Walk) (body : Code) : Code := walks.foldr around body

/-- Writes a walk on a page and leaves its block open. -/
def enter (w : Walk) (page : Page) : Page :=
  let page := page.append ((Code.ofSteps w.before).lines page.depth)
  let page := (page.append (w.loop.headerLines page.depth)).openBlock ""
  page.append ((Code.ofSteps w.inside).lines page.depth)

end Walk

end TunedKernel
