import HttpClientGen.Proofs.Script.Literal
import HttpClientGen.Text
import Mathlib.Algebra.Ring.Parity
import Mathlib.Data.List.Induction

/-!
# Quoted texts are read back

A quoted text is one literal of JavaScript, and it stands for the text. Between its quotes every quote
stands behind an odd number of backslashes, and no line ends there.
-/

namespace HttpClientGen.Text

/-- The characters that are escaped, each with the letter behind its backslash. -/
def escapeLetters : List (Char × Char) :=
  [('"', '"'), ('\\', '\\'), ('\n', 'n'), ('\r', 'r'), ('\t', 't')]

/-- A character is escaped by its letter or stands for itself. -/
theorem escapeChar_cases (c : Char) :
    (∃ letter, (c, letter) ∈ escapeLetters ∧ escapeChar c = ['\\', letter]) ∨
      c ∉ ['"', '\\', '\n', '\r', '\t'] ∧ escapeChar c = [c] := by
  by_cases escaped : c ∈ ['"', '\\', '\n', '\r', '\t']
  · left
    simp only [List.mem_cons, List.not_mem_nil, or_false] at escaped
    rcases escaped with rfl | rfl | rfl | rfl | rfl
    · exact ⟨'"', by decide, rfl⟩
    · exact ⟨'\\', by decide, rfl⟩
    · exact ⟨'n', by decide, rfl⟩
    · exact ⟨'r', by decide, rfl⟩
    · exact ⟨'t', by decide, rfl⟩
  · right
    refine ⟨escaped, ?_⟩
    simp only [List.mem_cons, List.not_mem_nil, or_false, not_or] at escaped
    simp [escapeChar, escaped]

/-- The letter of an escape is not the end of a line, and it is a backslash only for a backslash. -/
theorem letter_of_mem_escapeLetters {c letter : Char} (listed : (c, letter) ∈ escapeLetters) :
    letter ∉ ['\n', '\r'] ∧ (letter = '\\' ↔ c = '\\') ∧
      ∀ cs, Script.readEscape (letter :: cs) = some ([c], cs) := by
  simp only [escapeLetters, List.mem_cons, Prod.mk.injEq, List.not_mem_nil, or_false] at listed
  rcases listed with ⟨rfl, rfl⟩ | ⟨rfl, rfl⟩ | ⟨rfl, rfl⟩ | ⟨rfl, rfl⟩ | ⟨rfl, rfl⟩ <;>
    exact ⟨by decide, by decide, fun _ => rfl⟩

/-- How many backslashes a text ends with. -/
def backslashRun (cs : List Char) : Nat :=
  (cs.reverse.takeWhile (· == '\\')).length

@[simp] theorem backslashRun_concat (cs : List Char) (c : Char) :
    backslashRun (cs ++ [c]) = if c = '\\' then backslashRun cs + 1 else 0 := by
  by_cases backslash : c = '\\'
  · simp [backslashRun, backslash]
  · simp [backslashRun, backslash]

/-- Escapes leave an even number of backslashes behind: a backslash is doubled, and no other
character is escaped by one. -/
theorem even_backslashRun_flatMap (text : List Char) :
    Even (backslashRun (text.flatMap escapeChar)) := by
  induction text using List.reverseRecOn with
  | nil => exact ⟨0, rfl⟩
  | append_singleton text c ih =>
    rw [List.flatMap_append, List.flatMap_singleton]
    rcases escapeChar_cases c with ⟨letter, listed, escaped⟩ | ⟨plain, itself⟩
    · obtain ⟨-, isBackslash, -⟩ := letter_of_mem_escapeLetters listed
      have pair : text.flatMap escapeChar ++ escapeChar c =
          (text.flatMap escapeChar ++ ['\\']) ++ [letter] := by
        simp [escaped]
      rw [pair, backslashRun_concat, backslashRun_concat, if_pos rfl]
      by_cases backslash : c = '\\'
      · rw [if_pos (isBackslash.mpr backslash)]
        exact ih.add (by decide : Even 2)
      · rw [if_neg fun same => backslash (isBackslash.mp same)]
        exact ⟨0, rfl⟩
    · have other : c ≠ '\\' := by
        rintro rfl
        simp at plain
      rw [itself, backslashRun_concat, if_neg other]
      exact ⟨0, rfl⟩

/-- The only quote that escaping a character writes has a backslash in front. -/
theorem eq_of_escapeChar_eq {c : Char} {before after : List Char}
    (quote : escapeChar c = before ++ '"' :: after) : before = ['\\'] := by
  rcases escapeChar_cases c with ⟨letter, -, escaped⟩ | ⟨plain, itself⟩
  · rw [escaped] at quote
    cases before with
    | nil => cases quote
    | cons b before =>
      obtain ⟨rfl, rest⟩ := List.cons.inj quote
      cases before with
      | nil => rfl
      | cons b before => simp at rest
  · rw [itself] at quote
    cases before with
    | nil =>
      obtain ⟨rfl, -⟩ := List.cons.inj quote
      simp at plain
    | cons b before => simp at quote

/-- A quote in an escaped text stands behind the escapes of a part of the text and a backslash. -/
theorem exists_front_of_quote {text before after : List Char}
    (quote : text.flatMap escapeChar = before ++ '"' :: after) :
    ∃ front : List Char, before = front.flatMap escapeChar ++ ['\\'] := by
  induction text generalizing before with
  | nil => simp at quote
  | cons c text ih =>
    rw [List.flatMap_cons] at quote
    have later {others : List Char} (split : before = escapeChar c ++ others)
        (rest : text.flatMap escapeChar = others ++ '"' :: after) :
        ∃ front : List Char, before = front.flatMap escapeChar ++ ['\\'] := by
      obtain ⟨front, rfl⟩ := ih rest
      exact ⟨c :: front, by simp [split]⟩
    rcases List.append_eq_append_iff.mp quote with ⟨others, split, rest⟩ | ⟨others, here, rest⟩
    · exact later split rest
    · cases others with
      | nil =>
        rw [List.append_nil] at here
        have whole : before = escapeChar c ++ [] := by simp [here]
        exact later whole (by simpa using rest.symm)
      | cons d others =>
        obtain ⟨rfl, -⟩ := List.cons.inj rest
        exact ⟨[], eq_of_escapeChar_eq here⟩

theorem odd_backslashRun_of_quote {text before after : List Char}
    (quote : text.flatMap escapeChar = before ++ '"' :: after) : Odd (backslashRun before) := by
  obtain ⟨front, rfl⟩ := exists_front_of_quote quote
  rw [backslashRun_concat, if_pos rfl]
  exact (even_backslashRun_flatMap front).add_one

theorem lineEnd_not_mem_flatMap (text : List Char) {c : Char}
    (mem : c ∈ text.flatMap escapeChar) : c ∉ ['\n', '\r'] := by
  obtain ⟨source, -, mem⟩ := List.mem_flatMap.mp mem
  rcases escapeChar_cases source with ⟨letter, listed, escaped⟩ | ⟨plain, itself⟩
  · obtain ⟨noEnd, -, -⟩ := letter_of_mem_escapeLetters listed
    rw [escaped] at mem
    have either : c = '\\' ∨ c = letter := by simpa using mem
    rcases either with rfl | rfl
    · decide
    · exact noEnd
  · rw [itself] at mem
    obtain rfl := List.mem_singleton.mp mem
    intro isEnd
    simp only [List.mem_cons, List.not_mem_nil, or_false, not_or] at plain isEnd
    rcases isEnd with rfl | rfl
    · exact plain.2.2.1 rfl
    · exact plain.2.2.2.1 rfl

theorem readString_escapeChar (c : Char) (cs : List Char) :
    Script.readString (escapeChar c ++ cs) = (Script.readString cs).map (Script.prepend [c]) := by
  rcases escapeChar_cases c with ⟨letter, listed, escaped⟩ | ⟨plain, itself⟩
  · obtain ⟨-, -, read⟩ := letter_of_mem_escapeLetters listed
    rw [escaped, List.cons_append, Script.readString, if_neg (by decide), if_neg (by decide),
      if_pos rfl]
    split
    · next failed => simp [read] at failed
    · next meaning rest again =>
      obtain ⟨rfl, rfl⟩ : [c] = meaning ∧ cs = rest := by simpa [read] using again
      rfl
  · simp only [List.mem_cons, List.not_mem_nil, or_false, not_or] at plain
    rw [itself, List.singleton_append, Script.readString, if_neg plain.1,
      if_neg (not_or.mpr ⟨plain.2.2.1, plain.2.2.2.1⟩), if_neg plain.2.1]

/-- An escaped text is read back up to the quote behind it. -/
theorem readString_append (text rest : List Char) :
    Script.readString (text.flatMap escapeChar ++ '"' :: rest) = some (text, rest) := by
  induction text with
  | nil => rw [List.flatMap_nil, List.nil_append, Script.readString, if_pos rfl]
  | cons c text ih =>
    rw [List.flatMap_cons, List.append_assoc, readString_escapeChar, ih]
    rfl

theorem toList_quote (text : String) :
    (quote text).toList = '"' :: (text.toList.flatMap escapeChar ++ ['"']) :=
  String.toList_ofList

theorem quote_injective : Function.Injective quote := by
  intro first second same
  have texts := congrArg String.toList same
  rw [toList_quote, toList_quote, List.cons.injEq] at texts
  have read := congrArg Script.readString texts.2
  rw [readString_append, readString_append] at read
  exact String.toList_inj.mp (congrArg Prod.fst (Option.some.inj read))

end HttpClientGen.Text
