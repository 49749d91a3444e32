import HttpClientGen.Proofs.Except
import HttpClientGen.Template.Parser

/-!
# Braces in a template

The verb of a template starts at a colon and its components end at slashes, but only outside of
braces. `Closes` says what one scan over a text checks: it counts the open braces and meets no stop
character while none is open. Both scans of the reader are described by it, so that what the first
one has checked can be used for the second one.
-/

namespace HttpClientGen.Template

/-- The text closes `depth` open braces and all of its own, and `stop` stands only inside of
braces. -/
def Closes (stop : Char) : Nat → List Char → Prop
  | depth, [] => depth = 0
  | depth, c :: cs =>
    if c = '{' then Closes stop (depth + 1) cs
    else if c = '}' then depth ≠ 0 ∧ Closes stop (depth - 1) cs
    else (c = stop → depth ≠ 0) ∧ Closes stop depth cs

section Cons

variable {stop c : Char} {depth : Nat} {cs : List Char}

theorem closes_cons_of_opens (opens : c = '{') :
    Closes stop depth (c :: cs) ↔ Closes stop (depth + 1) cs := by
  rw [Closes, if_pos opens]

theorem closes_cons_of_shuts (shuts : c = '}') :
    Closes stop depth (c :: cs) ↔ depth ≠ 0 ∧ Closes stop (depth - 1) cs := by
  have opens : c ≠ '{' := by
    rintro rfl
    cases shuts
  rw [Closes, if_neg opens, if_pos shuts]

theorem closes_cons_of_plain (opens : c ≠ '{') (shuts : c ≠ '}') :
    Closes stop depth (c :: cs) ↔ ¬(c = stop ∧ depth = 0) ∧ Closes stop depth cs := by
  rw [Closes, if_neg opens, if_neg shuts, not_and]

end Cons

/-- What stands after a text that closes its braces is scanned as a text of its own. -/
theorem Closes.append_iff {stop other : Char} {depth : Nat} {front back : List Char}
    (closes : Closes other depth front) :
    Closes stop depth (front ++ back) ↔ Closes stop depth front ∧ Closes stop 0 back := by
  induction front generalizing depth with
  | nil =>
    obtain rfl : depth = 0 := closes
    simp [Closes]
  | cons c front ih =>
    rw [List.cons_append]
    by_cases opens : c = '{'
    · rw [closes_cons_of_opens opens] at closes
      rw [closes_cons_of_opens opens, closes_cons_of_opens opens, ih closes]
    · by_cases shuts : c = '}'
      · rw [closes_cons_of_shuts shuts] at closes
        rw [closes_cons_of_shuts shuts, closes_cons_of_shuts shuts, ih closes.2, and_assoc]
      · rw [closes_cons_of_plain opens shuts] at closes
        rw [closes_cons_of_plain opens shuts, closes_cons_of_plain opens shuts, ih closes.2,
          and_assoc]

/-- Without braces of its own a text changes nothing for what stands after it. -/
theorem closes_append_of_plain {stop : Char} {depth : Nat} {plain back : List Char}
    (opens : '{' ∉ plain) (shuts : '}' ∉ plain) :
    Closes stop depth (plain ++ back) ↔ (stop ∈ plain → depth ≠ 0) ∧ Closes stop depth back := by
  induction plain with
  | nil => simp
  | cons c plain ih =>
    simp only [List.mem_cons, not_or] at opens shuts
    simp only [List.cons_append, Closes, if_neg (Ne.symm opens.1), if_neg (Ne.symm shuts.1),
      ih opens.2 shuts.2, List.mem_cons, ← and_assoc]
    refine and_congr_left fun _ => ⟨fun both mem => ?_, fun all => ?_⟩
    · rcases mem with rfl | mem
      · exact both.1 rfl
      · exact both.2 mem
    · exact ⟨fun same => all (Or.inl same.symm), fun mem => all (Or.inr mem)⟩

theorem closes_of_plain {stop : Char} {plain : List Char} (opens : '{' ∉ plain)
    (shuts : '}' ∉ plain) : Closes stop 0 plain ↔ stop ∉ plain := by
  have alone : Closes stop 0 (plain ++ []) ↔ (stop ∈ plain → 0 ≠ 0) ∧ Closes stop 0 [] :=
    closes_append_of_plain opens shuts
  simpa [Closes] using alone

/-- A pair of braces hides everything between them. -/
theorem closes_braced {stop : Char} {inner : List Char} (opens : '{' ∉ inner)
    (shuts : '}' ∉ inner) : Closes stop 0 ('{' :: (inner ++ ['}'])) := by
  have behind : Closes stop 1 (inner ++ ['}']) :=
    (closes_append_of_plain opens shuts).mpr ⟨by simp, by simp [Closes]⟩
  simpa [Closes] using behind

/-- Texts that close their braces, joined by a slash, are scanned one by one. -/
theorem closes_intercalate_iff {stop : Char} (differ : stop ≠ '/') {texts : List (List Char)}
    (closed : ∀ text ∈ texts, Closes '/' 0 text) :
    Closes stop 0 (['/'].intercalate texts) ↔ ∀ text ∈ texts, Closes stop 0 text := by
  induction texts with
  | nil => simp [Closes]
  | cons text texts ih =>
    cases texts with
    | nil => simp
    | cons next others =>
      have slash (back : List Char) : Closes stop 0 ('/' :: back) ↔ Closes stop 0 back := by
        simp [Closes, Ne.symm differ]
      rw [List.intercalate_cons_cons, List.append_assoc,
        (closed text List.mem_cons_self).append_iff, List.singleton_append, slash,
        ih fun other listed => closed other (List.mem_cons_of_mem text listed)]
      simp

def verbText (verb : Option (List Char)) : List Char :=
  verb.elim [] (':' :: ·)

/-- Verbs that are accepted. -/
def VerbAllowed (verb : List Char) : Prop :=
  verb ≠ [] ∧ ∀ c ∈ verb, c ∉ ['/', '{', '}', ':']

theorem readVerb_eq_ok_iff {offset : Nat} {text verb : List Char} :
    readVerb offset text = .ok verb ↔ VerbAllowed text ∧ verb = text := by
  have reserved : (text.any fun c => c == '/' || c == '{' || c == '}' || c == ':') = true ↔
      ¬ ∀ c ∈ text, c ∉ ['/', '{', '}', ':'] := by
    simp only [List.any_eq_true, Bool.or_eq_true, beq_iff_eq, List.mem_cons, List.not_mem_nil]
    grind
  rw [readVerb, VerbAllowed]
  by_cases empty : text = []
  · simp [empty]
  · rw [if_neg empty]
    by_cases clean : ∀ c ∈ text, c ∉ ['/', '{', '}', ':']
    · rw [if_neg fun bad => reserved.mp bad clean, Except.ok.injEq]
      exact ⟨fun same => ⟨⟨empty, clean⟩, same.symm⟩, fun both => both.2.symm⟩
    · rw [if_pos (reserved.mpr clean)]
      exact ⟨(nomatch ·), fun both => absurd both.1.2 clean⟩

theorem consPath_map_eq_ok_iff {c : Char} {path : List Char} {verb : Option (List Char)}
    {step : Except SyntaxIssue (List Char × Option (List Char))} :
    consPath c <$> step = .ok (path, verb) ↔
      ∃ rest, path = c :: rest ∧ step = .ok (rest, verb) := by
  simp only [map_eq_ok_iff, consPath, Prod.exists, Prod.mk.injEq]
  constructor
  · rintro ⟨rest, _, read, rfl, rfl⟩
    exact ⟨rest, rfl, read⟩
  · rintro ⟨rest, rfl, read⟩
    exact ⟨rest, verb, read, rfl, rfl⟩

/-- Where the verb starts the path is over: the text is a colon outside of braces and a verb. -/
theorem closes_nil_and_verb_iff {depth : Nat} {c : Char} {cs : List Char}
    {verb : Option (List Char)} :
    Closes ':' depth [] ∧ c :: cs = [] ++ verbText verb ∧ (∀ text ∈ verb, VerbAllowed text) ↔
      (c = ':' ∧ depth = 0) ∧ verb = some cs ∧ VerbAllowed cs := by
  cases verb with
  | none => simp [verbText]
  | some text =>
    simp only [Closes, verbText, Option.elim_some, List.nil_append, List.cons.injEq,
      Option.mem_some, forall_eq', Option.some.injEq]
    constructor
    · rintro ⟨closed, ⟨colon, rfl⟩, allowed⟩
      exact ⟨⟨colon, closed⟩, rfl, allowed⟩
    · rintro ⟨⟨colon, closed⟩, rfl, allowed⟩
      exact ⟨closed, ⟨colon, rfl⟩, allowed⟩

/-- A character that belongs to the path is put in front of what the rest is cut into. -/
theorem consPath_map_cuts_iff {depth next : Nat} {c : Char} {cs path : List Char}
    {verb : Option (List Char)} {step : Except SyntaxIssue (List Char × Option (List Char))}
    (goesOn : ¬(c = ':' ∧ depth = 0))
    (closes : ∀ rest, Closes ':' depth (c :: rest) ↔ Closes ':' next rest)
    (later : ∀ rest, step = .ok (rest, verb) ↔
      Closes ':' next rest ∧ cs = rest ++ verbText verb ∧ ∀ text ∈ verb, VerbAllowed text) :
    consPath c <$> step = .ok (path, verb) ↔
      Closes ':' depth path ∧ c :: cs = path ++ verbText verb ∧
        ∀ text ∈ verb, VerbAllowed text := by
  rw [consPath_map_eq_ok_iff]
  cases path with
  | nil =>
    rw [closes_nil_and_verb_iff]
    simp [goesOn]
  | cons p path =>
    constructor
    · rintro ⟨rest, same, read⟩
      obtain ⟨rfl, rfl⟩ := List.cons.inj same
      obtain ⟨closed, rfl, allowed⟩ := (later _).mp read
      exact ⟨(closes _).mpr closed, rfl, allowed⟩
    · rintro ⟨closed, same, allowed⟩
      obtain ⟨rfl, rest⟩ := List.cons.inj same
      exact ⟨path, rfl, (later _).mpr ⟨(closes _).mp closed, rest, allowed⟩⟩

/-- The first scan cuts a text where it says: in front of the first colon outside of braces. -/
theorem splitVerb_eq_ok_iff {depth offset : Nat} {cs path : List Char}
    {verb : Option (List Char)} :
    splitVerb depth offset cs = .ok (path, verb) ↔
      Closes ':' depth path ∧ cs = path ++ verbText verb ∧ ∀ text ∈ verb, VerbAllowed text := by
  induction cs generalizing depth offset path with
  | nil =>
    by_cases closed : depth = 0
    · cases path <;> cases verb <;> simp [splitVerb, closed, Closes, verbText]
    · cases path <;> simp [splitVerb, closed, Closes]
  | cons c cs ih =>
    -- In every branch the path is either over here, or it goes on with this very character.
    rw [splitVerb]
    split
    · next opens =>
      exact consPath_map_cuts_iff (by simp [opens]) (fun _ => closes_cons_of_opens opens)
        fun _ => ih
    · next opens =>
      split
      · next shuts =>
        split
        · next closed =>
          cases path with
          | nil => rw [closes_nil_and_verb_iff]; simp [shuts]
          | cons p path =>
            refine ⟨nofun, fun ⟨unclosed, same, _⟩ => ?_⟩
            obtain ⟨rfl, -⟩ := List.cons.inj same
            exact absurd closed ((closes_cons_of_shuts shuts).mp unclosed).1
        · next closed =>
          refine consPath_map_cuts_iff (by simp [shuts]) (fun rest => ?_) fun _ => ih
          rw [closes_cons_of_shuts shuts, and_iff_right closed]
      · next shuts =>
        split
        · next colon =>
          rw [map_eq_ok_iff]
          cases path with
          | nil =>
            simp only [closes_nil_and_verb_iff, readVerb_eq_ok_iff, Prod.mk.injEq]
            grind
          | cons p path =>
            constructor
            · rintro ⟨_, -, same⟩
              cases same
            · rintro ⟨unclosed, same, _⟩
              obtain ⟨rfl, -⟩ := List.cons.inj same
              exact absurd colon ((closes_cons_of_plain opens shuts).mp unclosed).1
        · next colon =>
          refine consPath_map_cuts_iff colon (fun rest => ?_) fun _ => ih
          rw [closes_cons_of_plain opens shuts, and_iff_right colon]

theorem consComponent_map_eq_ok_iff {c : Char} {first : List Char} {others : List (List Char)}
    {step : Except SyntaxIssue (List (List Char))} (nonempty : step ≠ .ok []) :
    consComponent c <$> step = .ok (first :: others) ↔
      ∃ rest, first = c :: rest ∧ step = .ok (rest :: others) := by
  rw [map_eq_ok_iff]
  constructor
  · rintro ⟨components, read, same⟩
    cases components with
    | nil => exact absurd read nonempty
    | cons rest components =>
      obtain ⟨rfl, rfl⟩ := List.cons.inj same
      exact ⟨rest, rfl, read⟩
  · rintro ⟨rest, rfl, read⟩
    exact ⟨rest :: others, read, rfl⟩

theorem cutComponents_ne_nil (size depth offset : Nat) (path : List Char) :
    cutComponents size depth offset path ≠ .ok [] := by
  have grows (c : Char) (step : Except SyntaxIssue (List (List Char))) :
      consComponent c <$> step ≠ .ok [] := by
    intro failed
    obtain ⟨components, -, same⟩ := map_eq_ok_iff.mp failed
    cases components <;> simp [consComponent] at same
  cases path with
  | nil => by_cases closed : depth = 0 <;> simp [cutComponents, closed]
  | cons c path =>
    rw [cutComponents]
    split
    · exact grows _ _
    · split
      · split
        · exact nofun
        · exact grows _ _
      · split
        · intro failed
          obtain ⟨components, -, same⟩ := map_eq_ok_iff.mp failed
          cases same
        · exact grows _ _

/-- An empty component is over at once: the text goes on with a slash outside of braces. -/
theorem closes_nil_and_intercalate_iff {depth : Nat} {c : Char} {path : List Char}
    {others : List (List Char)} :
    Closes '/' depth [] ∧ (∀ text ∈ others, Closes '/' 0 text) ∧
        ['/'].intercalate ([] :: others) = c :: path ↔
      (c = '/' ∧ depth = 0) ∧ others ≠ [] ∧ (∀ text ∈ others, Closes '/' 0 text) ∧
        ['/'].intercalate others = path := by
  cases others with
  | nil => simp
  | cons next others =>
    simp only [Closes, List.intercalate_cons_cons, List.nil_append, List.singleton_append,
      List.cons.injEq]
    constructor
    · rintro ⟨closed, rest, rfl, joined⟩
      exact ⟨⟨rfl, closed⟩, List.cons_ne_nil _ _, rest, joined⟩
    · rintro ⟨⟨rfl, closed⟩, -, rest, joined⟩
      exact ⟨closed, rest, rfl, joined⟩

/-- A character that does not end a component is put in front of the first one of the rest. -/
theorem consComponent_map_cuts_iff {depth next : Nat} {c : Char} {path first : List Char}
    {others : List (List Char)} {step : Except SyntaxIssue (List (List Char))}
    (goesOn : ¬(c = '/' ∧ depth = 0)) (nonempty : step ≠ .ok [])
    (closes : ∀ rest, Closes '/' depth (c :: rest) ↔ Closes '/' next rest)
    (later : ∀ rest, step = .ok (rest :: others) ↔
      Closes '/' next rest ∧ (∀ text ∈ others, Closes '/' 0 text) ∧
        ['/'].intercalate (rest :: others) = path) :
    consComponent c <$> step = .ok (first :: others) ↔
      Closes '/' depth first ∧ (∀ text ∈ others, Closes '/' 0 text) ∧
        ['/'].intercalate (first :: others) = c :: path := by
  rw [consComponent_map_eq_ok_iff nonempty]
  cases first with
  | nil =>
    rw [closes_nil_and_intercalate_iff]
    simp [goesOn]
  | cons f first =>
    rw [List.intercalate_cons_cons_left]
    constructor
    · rintro ⟨rest, same, read⟩
      obtain ⟨rfl, rfl⟩ := List.cons.inj same
      obtain ⟨closed, othersClosed, rfl⟩ := (later _).mp read
      exact ⟨(closes _).mpr closed, othersClosed, rfl⟩
    · rintro ⟨closed, othersClosed, same⟩
      obtain ⟨rfl, rest⟩ := List.cons.inj same
      exact ⟨first, rfl, (later _).mpr ⟨(closes _).mp closed, othersClosed, rest⟩⟩

/-- The second scan cuts a path at the slashes outside of braces and nowhere else. -/
theorem cutComponents_eq_ok_iff {size depth offset : Nat} {path first : List Char}
    {others : List (List Char)} :
    cutComponents size depth offset path = .ok (first :: others) ↔
      Closes '/' depth first ∧ (∀ text ∈ others, Closes '/' 0 text) ∧
        ['/'].intercalate (first :: others) = path := by
  induction path generalizing depth offset first others with
  | nil =>
    by_cases closed : depth = 0
    · cases first <;> cases others <;> simp [cutComponents, closed, Closes]
    · cases first <;> simp [cutComponents, closed, Closes, List.intercalate_cons_cons_left]
  | cons c path ih =>
    have nonempty (deeper at' : Nat) : cutComponents size deeper at' path ≠ .ok [] :=
      cutComponents_ne_nil size deeper at' path
    rw [cutComponents]
    split
    · next opens =>
      exact consComponent_map_cuts_iff (by simp [opens]) (nonempty _ _)
        (fun _ => closes_cons_of_opens opens) fun _ => ih
    · next opens =>
      split
      · next shuts =>
        split
        · next closed =>
          cases first with
          | nil => rw [closes_nil_and_intercalate_iff]; simp [shuts]
          | cons f first =>
            rw [List.intercalate_cons_cons_left]
            refine ⟨nofun, fun ⟨unclosed, _, same⟩ => ?_⟩
            obtain ⟨rfl, -⟩ := List.cons.inj same
            exact absurd closed ((closes_cons_of_shuts shuts).mp unclosed).1
        · next closed =>
          refine consComponent_map_cuts_iff (by simp [shuts]) (nonempty _ _) (fun rest => ?_)
            fun _ => ih
          rw [closes_cons_of_shuts shuts, and_iff_right closed]
      · next shuts =>
        split
        · next slash =>
          rw [map_eq_ok_iff]
          cases first with
          | nil =>
            rw [closes_nil_and_intercalate_iff, and_iff_right slash]
            obtain ⟨-, rfl⟩ := slash
            cases others with
            | nil => simp [nonempty]
            | cons next others => simp [ih, and_assoc]
          | cons f first =>
            rw [List.intercalate_cons_cons_left]
            constructor
            · rintro ⟨_, -, same⟩
              cases same
            · rintro ⟨unclosed, _, same⟩
              obtain ⟨rfl, -⟩ := List.cons.inj same
              exact absurd slash ((closes_cons_of_plain opens shuts).mp unclosed).1
        · next slash =>
          refine consComponent_map_cuts_iff slash (nonempty _ _) (fun rest => ?_) fun _ => ih
          rw [closes_cons_of_plain opens shuts, and_iff_right slash]

end HttpClientGen.Template
