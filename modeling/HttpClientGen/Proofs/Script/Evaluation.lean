import HttpClientGen.Proofs.Script.Literal
import HttpClientGen.Proofs.Script.Reading

/-!
# What a template literal evaluates to

A template literal is written as characters and holes, and each hole stands in front or behind a
slash. It evaluates to the characters, with values in the places of the holes, if and only if none of
its characters is a backtick, a backslash or a carriage return.
-/

namespace HttpClientGen.Script

def Piece.filled (values : Chain → String) : Piece → List Char
  | char c => [c]
  | value chain => (values chain).toList
  | encoded _ => []

/-- There is no hole in front of some pieces. -/
def NoHole (pieces : List Piece) : Prop :=
  ∀ chain, pieces.head? ≠ some (.value chain)

/-- Characters other than an opening brace, and holes, each of them in front or behind a slash. -/
def Spaced : List Piece → Prop
  | [] => True
  | .char c :: pieces => c ≠ '{' ∧ (c ≠ '/' → NoHole pieces) ∧ Spaced pieces
  | .value chain :: pieces => chain.Named ∧ Spaced pieces
  | .encoded _ :: _ => False

/-- The characters mean themselves in a template literal. -/
def Verbatim (pieces : List Piece) : Prop :=
  ∀ c, .char c ∈ pieces → c ∉ ['\x60', '\\', '\r']

/-- A text is no longer than the filled pieces, and equal to them only if their characters mean
themselves. -/
structure Bounds (values : Chain → String) (pieces : List Piece) (result : List Char) : Prop where
  short : result.length ≤ (pieces.flatMap (Piece.filled values)).length
  verbatim : result = pieces.flatMap (Piece.filled values) → Verbatim pieces

section Steps

variable {values : Chain → String} {cs rest result : List Char}

theorem evalTemplate_of_end : evalTemplate values ('\x60' :: rest) = some ([], rest) := by
  rw [evalTemplate, if_pos rfl]

theorem evalTemplate_of_char {c : Char} (plain : c ∉ ['\x60', '\\', '\r'])
    (noHole : cs.head? ≠ some '{') :
    evalTemplate values (c :: cs) = (evalTemplate values cs).map (prepend [c]) := by
  simp only [List.mem_cons, List.not_mem_nil, or_false, not_or] at plain
  rw [evalTemplate, if_neg plain.1, if_neg plain.2.1, if_neg fun both => noHole both.2,
    if_neg plain.2.2]

theorem evalTemplate_of_hole {inner : List Char} {chain : Chain} (closed : '}' ∉ inner)
    (read : readHole inner = some (.value chain)) :
    evalTemplate values ('$' :: '{' :: (inner ++ '}' :: cs)) =
      (evalTemplate values cs).map (prepend (values chain).toList) := by
  have cut : Text.cutFirst '}' ('{' :: (inner ++ '}' :: cs)) = some ('{' :: inner, cs) :=
    Text.cutFirst_eq_some_iff.mpr ⟨by simp [closed], by simp⟩
  rw [evalTemplate, if_neg (by decide), if_neg (by decide), if_pos ⟨rfl, rfl⟩]
  split
  · next none => simp [none] at cut
  · next inner' rest' again =>
    obtain ⟨rfl, rfl⟩ : '{' :: inner = inner' ∧ cs = rest' := by simpa using cut.symm.trans again
    simp [read]

theorem map_prepend_eq_some {front : List Char} {read : Option (List Char × List Char)}
    (mapped : read.map (prepend front) = some (result, rest)) :
    ∃ later, read = some (later, rest) ∧ result = front ++ later := by
  obtain ⟨⟨later, rest⟩, found, ⟨⟩⟩ := Option.map_eq_some_iff.mp mapped
  exact ⟨later, found, rfl⟩

/-- Behind a backslash, an escape is read. -/
theorem exists_escape (read : evalTemplate values ('\\' :: cs) = some (result, rest)) :
    ∃ meaning behind later, readEscape cs = some (meaning, behind) ∧
      evalTemplate values behind = some (later, rest) ∧ result = meaning ++ later := by
  rw [evalTemplate, if_neg (by decide), if_pos rfl] at read
  split at read
  · cases read
  · next meaning behind escape =>
    obtain ⟨later, evaluated, split⟩ := map_prepend_eq_some read
    exact ⟨meaning, behind, later, escape, evaluated, split⟩

/-- A carriage return never comes out of an evaluation: a line feed does, or nothing. -/
theorem exists_lineEnd (read : evalTemplate values ('\r' :: cs) = some (result, rest)) :
    ∃ lineEnd later, (lineEnd = [] ∨ lineEnd = ['\n']) ∧
      evalTemplate values cs = some (later, rest) ∧ result = lineEnd ++ later := by
  rw [evalTemplate, if_neg (by decide), if_neg (by decide), if_neg (by simp), if_pos rfl] at read
  obtain ⟨later, evaluated, split⟩ := map_prepend_eq_some read
  refine ⟨_, later, ?_, evaluated, split⟩
  by_cases feed : cs.head? = some '\n'
  · exact Or.inl (if_pos feed)
  · exact Or.inr (if_neg feed)

/-- An evaluation takes at least the backtick that ends the literal. -/
theorem length_of_evalTemplate (read : evalTemplate values cs = some (result, rest)) :
    rest.length < cs.length := by
  fun_induction evalTemplate values cs generalizing result with
  | case1 => cases read
  | case2 cs =>
    cases read
    exact Nat.lt_succ_self _
  | case3 => cases read
  | case4 cs meaning behind escape _ ih =>
    obtain ⟨later, evaluated, -⟩ := map_prepend_eq_some read
    exact Nat.lt_trans (ih evaluated) (Nat.lt_succ_of_lt (length_of_readEscape escape))
  | case5 => cases read
  | case6 c cs _ _ _ inner behind cut chain _ ih =>
    obtain ⟨later, evaluated, -⟩ := map_prepend_eq_some read
    exact Nat.lt_trans (ih evaluated) (Nat.lt_succ_of_lt (length_of_cutFirst cut))
  | case7 => cases read
  | case8 cs _ _ _ ih =>
    obtain ⟨later, evaluated, -⟩ := map_prepend_eq_some read
    exact Nat.lt_succ_of_lt (ih evaluated)
  | case9 c cs _ _ _ _ ih =>
    obtain ⟨later, evaluated, -⟩ := map_prepend_eq_some read
    exact Nat.lt_succ_of_lt (ih evaluated)

end Steps

section Pieces

variable {values : Chain → String} {pieces : List Piece} {cs rest result : List Char}

theorem head?_of_spaced (spaced : Spaced pieces) :
    (pieces.flatMap Piece.text ++ '\x60' :: rest).head? ≠ some '{' := by
  cases pieces with
  | nil => simp
  | cons piece pieces =>
    cases piece with
    | char c => simpa using spaced.1
    | value chain => simp
    | encoded chain => cases spaced

theorem evalTemplate_of_value {chain : Chain} {cs : List Char} (named : chain.Named) :
    evalTemplate values ((Piece.value chain).text ++ cs) =
      (evalTemplate values cs).map (prepend (values chain).toList) := by
  have closed : '}' ∉ chain.text := not_mem_text named (by decide) (by decide)
  rw [Piece.text_value, List.cons_append, List.cons_append, List.append_assoc,
    List.singleton_append]
  exact evalTemplate_of_hole closed (readHole_value named)

/-- Characters without a meaning of their own are evaluated to themselves. -/
theorem evalTemplate_append (spaced : Spaced pieces) (verbatim : Verbatim pieces) :
    evalTemplate values (pieces.flatMap Piece.text ++ '\x60' :: rest) =
      some (pieces.flatMap (Piece.filled values), rest) := by
  induction pieces with
  | nil => exact evalTemplate_of_end
  | cons piece pieces ih =>
    have verbatim' : Verbatim pieces := fun c listed => verbatim c (List.mem_cons_of_mem _ listed)
    rw [List.flatMap_cons, List.append_assoc]
    cases piece with
    | char c =>
      obtain ⟨-, -, spaced'⟩ := spaced
      rw [Piece.text_char, List.singleton_append,
        evalTemplate_of_char (verbatim c List.mem_cons_self) (head?_of_spaced spaced'),
        ih spaced' verbatim']
      rfl
    | value chain =>
      rw [evalTemplate_of_value spaced.1, ih spaced.2 verbatim']
      rfl
    | encoded chain => cases spaced

/-- What is left behind an escape. An escape goes no further than to the next slash, so that it takes
no hole apart. Only where it takes the backtick that ends the literal, less is left. -/
theorem exists_behind_escape (values : Chain → String) {eaten behind : List Char}
    (spaced : Spaced pieces) (noHole : NoHole pieces) (nonempty : eaten ≠ [])
    (plain : ∀ c ∈ eaten.dropLast, c ∉ ['/', '\x60'])
    (split : pieces.flatMap Piece.text ++ '\x60' :: rest = eaten ++ behind) :
    (∃ others, others.length < pieces.length ∧ Spaced others ∧
      behind = others.flatMap Piece.text ++ '\x60' :: rest ∧
      (others.flatMap (Piece.filled values)).length <
        (pieces.flatMap (Piece.filled values)).length) ∨
    behind.length ≤ rest.length := by
  -- All but the last character of what is taken are characters of the pieces other than a slash.
  induction eaten generalizing pieces with
  | nil => exact absurd rfl nonempty
  | cons c eaten ih =>
    cases pieces with
    | nil =>
      right
      obtain ⟨-, same⟩ := List.cons.inj split
      have lengths := congrArg List.length same
      simp at lengths
      omega
    | cons piece pieces =>
      cases piece with
      | value chain => exact absurd rfl (noHole chain)
      | encoded chain => cases spaced
      | char d =>
        obtain ⟨-, further, spaced'⟩ := spaced
        obtain ⟨rfl, split'⟩ := List.cons.inj split
        cases eaten with
        | nil =>
          left
          exact ⟨pieces, by simp, spaced', split'.symm, by simp [Piece.filled]⟩
        | cons e eaten =>
          have noSlash : d ≠ '/' := by
            rintro rfl
            exact plain '/' (by simp) (by simp)
          have plain' : ∀ c ∈ (e :: eaten).dropLast, c ∉ ['/', '\x60'] :=
            fun c mem => plain c (by simp [mem])
          rcases ih spaced' (further noSlash) (by simp) plain' split' with
            ⟨others, fewer, spaced'', rest', shorter⟩ | gone
          · left
            refine ⟨others, Nat.lt_succ_of_lt fewer, spaced'', rest', ?_⟩
            simp only [List.flatMap_cons, Piece.filled, List.length_append]
            omega
          · exact Or.inr gone

/-- An escape makes a literal shorter: more is taken for it than it stands for. -/
theorem length_of_escape {meaning eaten behind later : List Char}
    (spaced : Spaced (.char '\\' :: pieces)) (eats : Eats cs meaning behind eaten)
    (split : cs = pieces.flatMap Piece.text ++ '\x60' :: rest)
    (evaluated : evalTemplate values behind = some (later, rest))
    (short : ∀ others : List Piece, others.length < pieces.length → Spaced others →
      behind = others.flatMap Piece.text ++ '\x60' :: rest →
      later.length ≤ (others.flatMap (Piece.filled values)).length) :
    (meaning ++ later).length <
      ((Piece.char '\\' :: pieces).flatMap (Piece.filled values)).length := by
  obtain ⟨-, further, spaced'⟩ := spaced
  rcases exists_behind_escape values spaced' (further (by decide)) eats.nonempty
    eats.plain (split.symm.trans eats.split) with ⟨others, fewer, spaced'', rest', shorter⟩ | gone
  · have bound := short others fewer spaced'' rest'
    have atMostOne := eats.short
    rw [List.flatMap_cons, List.length_append, List.length_append]
    simp only [Piece.filled, List.length_singleton]
    omega
  · have further := length_of_evalTemplate evaluated
    omega

namespace Bounds

theorem of_shorter (shorter : result.length < (pieces.flatMap (Piece.filled values)).length) :
    Bounds values pieces result := by
  refine ⟨Nat.le_of_lt shorter, fun same => ?_⟩
  rw [same] at shorter
  exact absurd shorter (Nat.lt_irrefl _)

theorem value {chain : Chain} (bounds : Bounds values pieces result) :
    Bounds values (.value chain :: pieces) ((values chain).toList ++ result) := by
  refine ⟨?_, fun same c listed => ?_⟩
  · simpa [Piece.filled] using bounds.short
  · exact bounds.verbatim (List.append_cancel_left same) c (by simpa using listed)

theorem char {c : Char} (plain : c ∉ ['\x60', '\\', '\r']) (bounds : Bounds values pieces result) :
    Bounds values (.char c :: pieces) ([c] ++ result) := by
  refine ⟨?_, fun same d listed => ?_⟩
  · simpa [Piece.filled] using bounds.short
  · rcases List.mem_cons.mp listed with ⟨⟨⟩⟩ | later
    · exact plain
    · exact bounds.verbatim (List.append_cancel_left same) d later

/-- The end of a line stands in the place of a carriage return. -/
theorem lineEnd {lineEnd : List Char} (isEnd : lineEnd = [] ∨ lineEnd = ['\n'])
    (bounds : Bounds values pieces result) :
    Bounds values (.char '\r' :: pieces) (lineEnd ++ result) := by
  have short := bounds.short
  rcases isEnd with rfl | rfl
  · apply of_shorter
    rw [List.nil_append, List.flatMap_cons, List.length_append]
    simp only [Piece.filled, List.length_singleton]
    omega
  · refine ⟨by simpa [Piece.filled] using short, fun same => ?_⟩
    simp [Piece.filled] at same

end Bounds

/-- The result of an evaluation is no longer than the filled pieces, and equal to them only if no
character has a meaning of its own. -/
theorem bounds_of_evalTemplate (spaced : Spaced pieces)
    (read : evalTemplate values (pieces.flatMap Piece.text ++ '\x60' :: rest) =
      some (result, rest)) : Bounds values pieces result := by
  -- An escape takes several pieces at once, so the induction is on their number.
  induction count : pieces.length using Nat.strongRecOn generalizing pieces result with
  | ind n ih =>
    subst count
    cases pieces with
    | nil =>
      rw [List.flatMap_nil, List.nil_append, evalTemplate_of_end] at read
      cases read
      exact ⟨Nat.le_refl _, by simp [Verbatim]⟩
    | cons piece pieces =>
      have fewer : pieces.length < (piece :: pieces).length := Nat.lt_succ_self _
      rw [List.flatMap_cons, List.append_assoc] at read
      cases piece with
      | encoded chain => cases spaced
      | value chain =>
        rw [evalTemplate_of_value spaced.1] at read
        obtain ⟨later, evaluated, rfl⟩ := map_prepend_eq_some read
        exact (ih _ fewer spaced.2 evaluated rfl).value
      | char d =>
        have spaced' : Spaced pieces := spaced.2.2
        rw [Piece.text_char, List.singleton_append] at read
        by_cases backtick : d = '\x60'
        · rw [backtick, evalTemplate_of_end] at read
          have lengths := congrArg List.length (congrArg Prod.snd (Option.some.inj read))
          simp at lengths
          omega
        by_cases backslash : d = '\\'
        · subst backslash
          obtain ⟨meaning, behind, later, escape, evaluated, rfl⟩ := exists_escape read
          obtain ⟨eaten, eats⟩ := exists_eats_of_readEscape escape
          refine .of_shorter (length_of_escape spaced eats rfl evaluated ?_)
          rintro others fewer' spaced'' rfl
          exact (ih _ (Nat.lt_trans fewer' fewer) spaced'' evaluated rfl).short
        by_cases lineEnd : d = '\r'
        · subst lineEnd
          obtain ⟨lineEnd, later, isEnd, evaluated, rfl⟩ := exists_lineEnd read
          exact (ih _ fewer spaced' evaluated rfl).lineEnd isEnd
        have plain : d ∉ ['\x60', '\\', '\r'] := by
          simp [backtick, backslash, lineEnd]
        rw [evalTemplate_of_char plain (head?_of_spaced spaced')] at read
        obtain ⟨later, evaluated, rfl⟩ := map_prepend_eq_some read
        exact (ih _ fewer spaced' evaluated rfl).char plain

/-- A template literal evaluates to its filled pieces if and only if its characters mean themselves,
whatever the values are. -/
theorem evalTemplate_eq_filled_iff (spaced : Spaced pieces) :
    evalTemplate values (pieces.flatMap Piece.text ++ '\x60' :: rest) =
      some (pieces.flatMap (Piece.filled values), rest) ↔ Verbatim pieces := by
  constructor
  · intro read
    exact (bounds_of_evalTemplate spaced read).verbatim rfl
  · exact evalTemplate_append spaced

end Pieces

end HttpClientGen.Script
