/-
**Maximal runs.**

* `Ends` — a text that does not go on with a character of a class; `append_inj_of_ends` — what stands in
  front of such a text is known by its characters.
* `IsRun` — a maximal run of a text, with what stands before and after it.
* `runs_append_cons` — the runs of a text are those on both sides of a character outside of the class;
  `runs_isRun` — so every maximal run is one of them, in its place.
* `HasRun`, `IsFirstRun` — a text with a run of a kind, and the first such run, which is unique;
  `IsFirstRun.findSome?_eq`, `findSome?_runs_eq_none_iff` — what is found in the runs of a text, as a
  statement about the text.
-/

import Mathlib.Data.List.TakeWhile
import TunedKernel.Text.Blank

namespace TunedKernel.Text

/-! ### Where a run ends -/

/-- A text that does not go on with a character of a class. -/
def Ends (p : Char → Bool) (rest : List Char) : Prop := ∀ c ∈ rest.head?, p c = false

theorem Ends.nil (p : Char → Bool) : Ends p [] := nofun

theorem Ends.cons {p : Char → Bool} {c : Char} (other : p c = false) (rest : List Char) :
    Ends p (c :: rest) := by
  intro d head
  rwa [← Option.some.inj head]

theorem Ends.takeWhile_append {p : Char → Bool} {run rest : List Char} (ends : Ends p rest)
    (inside : ∀ c ∈ run, p c) : (run ++ rest).takeWhile p = run := by
  have none : rest.takeWhile p = [] := by
    cases rest with
    | nil => rfl
    | cons c rest => rw [List.takeWhile_cons, ends c rfl, if_neg Bool.false_ne_true]
  rw [List.takeWhile_append_of_pos inside, none, List.append_nil]

/-- What characters of a class stand in front of a text that does not go on with one is known, and so is
the text. -/
theorem append_inj_of_ends {p : Char → Bool} {run run' rest rest' : List Char}
    (inside : ∀ c ∈ run, p c) (inside' : ∀ c ∈ run', p c) (ends : Ends p rest) (ends' : Ends p rest')
    (same : run ++ rest = run' ++ rest') : run = run' ∧ rest = rest' := by
  have front : run = run' := by
    rw [← ends.takeWhile_append inside, same, ends'.takeWhile_append inside']
  exact ⟨front, List.append_cancel_left (front ▸ same)⟩

/-! ### The runs of a text -/

/-- A maximal run of the characters of a class, between what stands before and after it. -/
structure IsRun (p : Char → Bool) (before run after : List Char) : Prop where
  nonempty : run ≠ []
  inside : ∀ c ∈ run, p c
  left : ∀ c ∈ before.getLast?, p c = false
  right : Ends p after

section runs

variable {p : Char → Bool} {cs before run after : List Char}

theorem pushRun_append (run : List Char) (front back : List (List Char)) :
    pushRun run (front ++ back) = pushRun run front ++ back := by
  cases run <;> rfl

theorem runsFrom_append_cons {c : Char} (other : p c = false) (before after : List Char) :
    runsFrom p (before ++ c :: after) =
      ((runsFrom p before).1, (runsFrom p before).2 ++ runs p after) := by
  induction before with
  | nil => simp [runsFrom, other, runs]
  | cons d before ih =>
    rw [List.cons_append, runsFrom, runsFrom, ih]
    cases p d with
    | true => rfl
    | false => exact Prod.ext rfl (pushRun_append _ _ _)

/-- **Runs are found on both sides of a character of another class.** -/
theorem runs_append_cons {c : Char} (other : p c = false) (before after : List Char) :
    runs p (before ++ c :: after) = runs p before ++ runs p after := by
  rw [runs, runsFrom_append_cons other, pushRun_append]
  rfl

theorem runs_append_singleton {c : Char} (other : p c = false) (before : List Char) :
    runs p (before ++ [c]) = runs p before := by
  rw [runs_append_cons other, show runs p [] = [] from rfl, List.append_nil]

theorem runs_of_forall (nonempty : run ≠ []) (inside : ∀ c ∈ run, p c) : runs p run = [run] := by
  have whole : runsFrom p run = (run, []) := by
    clear nonempty
    induction run with
    | nil => rfl
    | cons c run ih =>
      obtain ⟨first, rest⟩ := List.forall_mem_cons.mp inside
      simp [runsFrom, ih rest, first]
  rw [runs, whole, pushRun, List.isEmpty_eq_false_iff.mpr nonempty, if_neg Bool.false_ne_true]

theorem runs_eq_nil (outside : ∀ c ∈ cs, p c = false) : runs p cs = [] := by
  induction cs with
  | nil => rfl
  | cons c cs ih =>
    obtain ⟨first, rest⟩ := List.forall_mem_cons.mp outside
    have split := runs_append_cons first [] cs
    rw [List.nil_append, ih rest] at split
    exact split

/-- A maximal run stands among the runs of the text, between those before and those after it. -/
theorem IsRun.runs_eq (is : IsRun p before run after) :
    runs p (before ++ run ++ after) = runs p before ++ run :: runs p after := by
  have behind : runs p (run ++ after) = run :: runs p after := by
    cases after with
    | nil => rw [List.append_nil, runs_of_forall is.nonempty is.inside, show runs p [] = [] from rfl]
    | cons c after =>
      have other : p c = false := is.right c rfl
      have skipped := runs_append_cons other [] after
      rw [List.nil_append] at skipped
      rw [runs_append_cons other, runs_of_forall is.nonempty is.inside, skipped]
      rfl
  rw [List.append_assoc]
  rcases List.eq_nil_or_concat before with rfl | ⟨front, c, rfl⟩
  · exact behind
  · rw [List.concat_eq_append] at is ⊢
    have other : p c = false := is.left c List.getLast?_concat
    rw [List.append_assoc, List.singleton_append, runs_append_cons other,
      runs_append_singleton other, behind]

/-- A text with a character of the class has a first run, behind characters of other classes only. -/
theorem exists_first_run (some : ∃ c ∈ cs, p c) :
    ∃ before run after, cs = before ++ run ++ after ∧ IsRun p before run after ∧
      ∀ c ∈ before, p c = false := by
  induction cs with
  | nil =>
    obtain ⟨c, member, -⟩ := some
    cases member
  | cons c cs ih =>
    cases first : p c with
    | true =>
      have right : Ends p ((c :: cs).dropWhile p) := by
        intro d head
        simpa [Option.mem_def.mp head] using List.head?_dropWhile_not p (c :: cs)
      refine ⟨[], (c :: cs).takeWhile p, (c :: cs).dropWhile p, ?_, ⟨?_, ?_, nofun, right⟩, nofun⟩
      · rw [List.nil_append, List.takeWhile_append_dropWhile]
      · rw [List.takeWhile_cons, if_pos first]
        exact List.cons_ne_nil _ _
      · exact fun d member => List.mem_takeWhile_imp member
    | false =>
      obtain ⟨d, member, inside⟩ := some
      have later : ∃ d ∈ cs, p d := by
        rcases List.mem_cons.mp member with rfl | member
        · exact absurd inside (Bool.eq_false_iff.mp first)
        · exact ⟨d, member, inside⟩
      obtain ⟨before, run, after, rfl, is, outside⟩ := ih later
      have all : ∀ d ∈ c :: before, p d = false := List.forall_mem_cons.mpr ⟨first, outside⟩
      exact ⟨c :: before, run, after, rfl,
        ⟨is.nonempty, is.inside, fun d last => all d (List.mem_of_mem_getLast? last), is.right⟩, all⟩

theorem exists_mem_of_runs_ne_nil (some : runs p cs ≠ []) : ∃ c ∈ cs, p c := by
  by_contra none
  refine some (runs_eq_nil fun c member => ?_)
  exact Bool.eq_false_iff.mpr fun inside => none ⟨c, member, inside⟩

/-- A run that is found stands in the text, the runs before it in front of it and those after it behind. -/
theorem exists_isRun_of_runs_eq {front back : List (List Char)} (found : runs p cs = front ++ run :: back) :
    ∃ before after, cs = before ++ run ++ after ∧ IsRun p before run after ∧ runs p before = front ∧
      runs p after = back := by
  induction front generalizing cs with
  | nil =>
    obtain ⟨before, first, after, rfl, is, outside⟩ :=
      exists_first_run (exists_mem_of_runs_ne_nil (found.trans_ne (by simp)))
    rw [is.runs_eq, runs_eq_nil outside] at found
    obtain ⟨rfl, rest⟩ := List.cons.inj found
    exact ⟨before, after, rfl, is, runs_eq_nil outside, rest⟩
  | cons r front ih =>
    obtain ⟨before, first, after, rfl, is, outside⟩ :=
      exists_first_run (exists_mem_of_runs_ne_nil (found.trans_ne (by simp)))
    rw [is.runs_eq, runs_eq_nil outside] at found
    obtain ⟨rfl, rest⟩ := List.cons.inj found
    obtain ⟨gap, behind, rfl, later, earlier, others⟩ := ih rest
    cases gap with
    | nil =>
      -- two maximal runs do not touch
      obtain ⟨d, run, rfl⟩ := List.exists_cons_of_ne_nil later.nonempty
      have inside : p d := later.inside d List.mem_cons_self
      exact absurd inside (Bool.eq_false_iff.mp (is.right d rfl))
    | cons c gap =>
      have front : IsRun p before first (c :: gap) :=
        ⟨is.nonempty, is.inside, is.left, .cons (is.right c rfl) gap⟩
      refine ⟨before ++ first ++ (c :: gap), behind, by simp only [List.append_assoc],
        ⟨later.nonempty, later.inside, fun d last => later.left d ?_, later.right⟩, ?_, others⟩
      · rw [List.getLast?_append] at last
        simpa [List.getLast?_cons] using last
      · rw [front.runs_eq, runs_eq_nil outside, earlier]
        rfl

/-! ### Statements about the text -/

/-- A text with a maximal run of a kind. -/
def HasRun (p : Char → Bool) (kind : List Char → Prop) (cs : List Char) : Prop :=
  ∃ before run after, cs = before ++ run ++ after ∧ IsRun p before run after ∧ kind run

/-- The first maximal run of a kind. -/
def IsFirstRun (p : Char → Bool) (kind : List Char → Prop) (cs run : List Char) : Prop :=
  ∃ before after, cs = before ++ run ++ after ∧ IsRun p before run after ∧ kind run ∧
    ¬HasRun p kind before

variable {kind : List Char → Prop}

theorem IsFirstRun.holds (first : IsFirstRun p kind cs run) : kind run := by
  obtain ⟨before, after, -, -, here, -⟩ := first
  exact here

theorem IsFirstRun.inside (first : IsFirstRun p kind cs run) : ∀ c ∈ run, p c := by
  obtain ⟨before, after, -, is, -⟩ := first
  exact is.inside

theorem hasRun_iff : HasRun p kind cs ↔ ∃ run ∈ runs p cs, kind run := by
  constructor
  · rintro ⟨before, run, after, rfl, is, here⟩
    exact ⟨run, is.runs_eq ▸ List.mem_append_right _ List.mem_cons_self, here⟩
  · rintro ⟨run, member, here⟩
    obtain ⟨front, back, found⟩ := List.append_of_mem member
    obtain ⟨before, after, split, is, -⟩ := exists_isRun_of_runs_eq found
    exact ⟨before, run, after, split, is, here⟩

theorem inside_of_mem_runs (member : run ∈ runs p cs) : ∀ c ∈ run, p c := by
  obtain ⟨front, back, found⟩ := List.append_of_mem member
  obtain ⟨before, after, -, is, -⟩ := exists_isRun_of_runs_eq found
  exact is.inside

section first

variable {α : Type} {f : List Char → Option α}
  (exact : ∀ run, (∀ c ∈ run, p c) → ((f run).isSome ↔ kind run))
include exact

/-- What is found in the runs of a text is found in the first one of the kind. -/
theorem IsFirstRun.findSome?_eq (first : IsFirstRun p kind cs run) : (runs p cs).findSome? f = f run := by
  obtain ⟨before, after, rfl, is, here, earlier⟩ := first
  obtain ⟨x, found⟩ := Option.isSome_iff_exists.mp ((exact run is.inside).mpr here)
  rw [found, List.findSome?_eq_some_iff]
  refine ⟨runs p before, run, runs p after, is.runs_eq, found, fun other member => ?_⟩
  refine Option.not_isSome_iff_eq_none.mp fun there => earlier (hasRun_iff.mpr ?_)
  exact ⟨other, member, (exact other (inside_of_mem_runs member)).mp there⟩

theorem findSome?_runs_eq_none_iff : (runs p cs).findSome? f = none ↔ ¬HasRun p kind cs := by
  rw [List.findSome?_eq_none_iff, hasRun_iff, not_exists]
  refine forall_congr' fun run => ?_
  rw [not_and]
  refine forall_congr' fun member => ?_
  rw [← exact run (inside_of_mem_runs member), Option.not_isSome_iff_eq_none]

end first

/-- A text with a run of the kind has one first run of the kind. -/
theorem HasRun.existsUnique_first (has : HasRun p kind cs) : ∃! run, IsFirstRun p kind cs run := by
  classical
  let f : List Char → Option (List Char) := fun run => if kind run then some run else none
  have exact (run : List Char) (_ : ∀ c ∈ run, p c) : (f run).isSome ↔ kind run := by
    simp [f]
  have itself {run : List Char} (first : IsFirstRun p kind cs run) :
      (runs p cs).findSome? f = some run := by
    rw [first.findSome?_eq exact]
    exact if_pos first.holds
  have found : (runs p cs).findSome? f ≠ none := fun none =>
    (findSome?_runs_eq_none_iff exact).mp none has
  obtain ⟨run, found⟩ := Option.ne_none_iff_exists'.mp found
  obtain ⟨front, first, back, all, here, none⟩ := List.findSome?_eq_some_iff.mp found
  obtain ⟨before, after, split, is, rfl, -⟩ := exists_isRun_of_runs_eq all
  have is : IsFirstRun p kind cs first := by
    refine ⟨before, after, split, is, (exact first is.inside).mp (by rw [here]; rfl), fun earlier => ?_⟩
    obtain ⟨other, member, there⟩ := hasRun_iff.mp earlier
    rw [← exact other (inside_of_mem_runs member), none other member] at there
    cases there
  refine ⟨first, is, fun other first' => ?_⟩
  exact Option.some.inj ((itself first').symm.trans (itself is))

end runs

end TunedKernel.Text
