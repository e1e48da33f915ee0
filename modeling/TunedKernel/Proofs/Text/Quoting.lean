/-
**Quoted texts are read in one way.**

* `PrefixFree` — a code that is read in one way, whatever stands behind it; `PrefixFree.terminated` and
  `PrefixFree.closed` — a text that a mark ends, and a list of codes that a mark ends.
* `quotedChar_cases` — a character is quoted by a letter, by its number or as itself.
* `prefixFree_quoted` — so a quoted text tells where it ends and what it quotes, whatever that holds.
-/

import TunedKernel.Proofs.Text.Numerals
import TunedKernel.Text.Quoted

namespace TunedKernel.Text

/-! ### Codes that are read in one way -/

/-- A code that is read in one way, whatever stands behind it. -/
def PrefixFree {α : Type} (code : α → List Char) : Prop :=
  ∀ ⦃a b : α⦄ ⦃rest rest' : List Char⦄, code a ++ rest = code b ++ rest' → a = b ∧ rest = rest'

namespace PrefixFree

variable {α β : Type} {code : α → List Char} {mark : Char}

theorem injective (free : PrefixFree code) : Function.Injective code := by
  intro a b same
  exact (free (congrArg (· ++ []) same)).1

theorem comp (free : PrefixFree code) {f : β → α} (injective : Function.Injective f) :
    PrefixFree fun b => code (f b) := by
  intro a b rest rest' same
  obtain ⟨codes, behind⟩ := free same
  exact ⟨injective codes, behind⟩

/-- No code is the beginning of another one. -/
theorem of_isPrefix (apart : ∀ a b, code a <+: code b → a = b) : PrefixFree code := by
  intro a b rest rest' same
  have equal : a = b := by
    rcases List.prefix_or_prefix_of_prefix (List.prefix_append (code a) rest)
      (same ▸ List.prefix_append (code b) rest') with shorter | longer
    · exact apart a b shorter
    · exact (apart b a longer).symm
  subst equal
  exact ⟨rfl, List.append_cancel_left same⟩

/-- A text of the characters of a class, with a mark behind it that is not of the class. -/
theorem terminated {p : Char → Bool} (injective : Function.Injective code) (inside : ∀ a, ∀ c ∈ code a, p c)
    (other : p mark = false) : PrefixFree fun a => code a ++ [mark] := by
  intro a b rest rest' same
  rw [List.append_assoc, List.append_assoc] at same
  obtain ⟨codes, behind⟩ :=
    append_inj_of_ends (inside a) (inside b) (.cons other rest) (.cons other rest') same
  exact ⟨injective codes, (List.cons.inj behind).2⟩

/-- A list of codes, with a mark behind it that none of them begins with. -/
theorem closed (free : PrefixFree code) (begins : ∀ a, ∃ c ∈ (code a).head?, c ≠ mark) :
    PrefixFree fun as : List α => as.flatMap code ++ [mark] := by
  have other (a : α) (more rest rest' : List Char) : code a ++ more ++ [mark] ++ rest ≠ mark :: rest' := by
    obtain ⟨c, head, different⟩ := begins a
    obtain ⟨cs, text⟩ := List.head?_eq_some_iff.mp head
    rw [text]
    exact fun same => different (List.cons.inj same).1
  intro as bs rest rest' same
  induction as generalizing bs with
  | nil =>
    cases bs with
    | nil => exact ⟨rfl, List.append_cancel_left same⟩
    | cons b bs => exact absurd same.symm (other b _ _ _)
  | cons a as ih =>
    cases bs with
    | nil => exact absurd same (other a _ _ _)
    | cons b bs =>
      simp only [List.flatMap_cons, List.append_assoc] at same
      obtain ⟨rfl, behind⟩ := free same
      obtain ⟨rfl, rests⟩ := ih (by simpa only [List.append_assoc] using behind)
      exact ⟨rfl, rests⟩

end PrefixFree

/-! ### Quoted characters -/

theorem prefixFree_hexNumeral : PrefixFree fun n => hexNumeral n ++ ['}'] :=
  .terminated (p := isHexDigit) (Function.LeftInverse.injective readHex_hexNumeral) isHexDigit_of_mem_hexNumeral
    (by decide)

/-- The character that is quoted by a letter behind a backslash. -/
def quotedBy : Char → Char
  | '0' => '\x00'
  | 't' => '\t'
  | 'r' => '\r'
  | 'n' => '\n'
  | c => c

theorem quotedChar_cases (c : Char) :
    (∃ letter, letter ≠ 'u' ∧ quotedChar c = ['\\', letter] ∧ quotedBy letter = c) ∨
      quotedChar c = '\\' :: 'u' :: '{' :: (hexNumeral c.toNat ++ ['}']) ∨
      c ≠ '"' ∧ c ≠ '\\' ∧ quotedChar c = [c] := by
  unfold quotedChar
  split
  · exact .inl ⟨'0', by decide, rfl, rfl⟩
  · exact .inl ⟨'t', by decide, rfl, rfl⟩
  · exact .inl ⟨'r', by decide, rfl, rfl⟩
  · exact .inl ⟨'n', by decide, rfl, rfl⟩
  · exact .inl ⟨'"', by decide, rfl, rfl⟩
  · exact .inl ⟨'\\', by decide, rfl, rfl⟩
  · next noQuote noSlash =>
    split
    · exact .inr (.inl rfl)
    · exact .inr (.inr ⟨noQuote, noSlash, rfl⟩)

theorem prefixFree_quotedChar : PrefixFree quotedChar := by
  intro c d rest rest' same
  rcases quotedChar_cases c with ⟨letter, noUnit, text, quotes⟩ | text | ⟨-, noSlash, text⟩ <;>
    rcases quotedChar_cases d with ⟨letter', noUnit', text', quotes'⟩ | text' | ⟨-, noSlash', text'⟩ <;>
    rw [text, text'] at same <;> simp only [List.cons_append, List.nil_append, List.cons.injEq] at same
  · obtain ⟨-, rfl, rests⟩ := same
    exact ⟨quotes.symm.trans quotes', rests⟩
  · exact absurd same.2.1 noUnit
  · exact absurd same.1.symm noSlash'
  · exact absurd same.2.1.symm noUnit'
  · obtain ⟨numbers, rests⟩ := prefixFree_hexNumeral same.2.2.2
    exact ⟨Char.ext (UInt32.toNat_inj.mp numbers), rests⟩
  · exact absurd same.1.symm noSlash'
  · exact absurd same.1 noSlash
  · exact absurd same.1 noSlash
  · exact same

/-! ### Quoted texts -/

/-- **A quoted text is read in one way**: where it ends and what it quotes are known, whatever characters it
quotes and whatever stands behind it. -/
theorem prefixFree_quoted : PrefixFree fun s => (quoted s).toList := by
  have begins (c : Char) : ∃ d ∈ (quotedChar c).head?, d ≠ '"' := by
    rcases quotedChar_cases c with ⟨letter, -, text, -⟩ | text | ⟨noQuote, -, text⟩
    · exact ⟨'\\', by rw [text]; rfl, by decide⟩
    · exact ⟨'\\', by rw [text]; rfl, by decide⟩
    · exact ⟨c, by rw [text]; rfl, noQuote⟩
  have inner := (prefixFree_quotedChar.closed begins).comp fun _ _ => String.toList_inj.mp
  intro s t rest rest' same
  simp only [quoted, String.toList_ofList, List.cons_append, List.cons.injEq, true_and] at same
  exact inner same

end TunedKernel.Text
