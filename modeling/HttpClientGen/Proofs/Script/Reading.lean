import HttpClientGen.Proofs.Script.Syntax
import HttpClientGen.Text
import Mathlib.Data.List.TakeWhile

/-!
# Written code is read back

Each thing that can be read has a text from which it is read, whatever stands behind it, as long as
the names in it are names and what follows cannot be taken for more of it.
-/

namespace HttpClientGen.Script

def Link.text (link : Link) : List Char :=
  (if link.optional then "?." else ".").toList ++ link.name.toList

def Chain.text (chain : Chain) : List Char :=
  chain.root.toList ++ chain.links.flatMap Link.text

def Piece.text : Piece → List Char
  | char c => [c]
  | value chain => "$\x7b".toList ++ chain.text ++ "\x7d".toList
  | encoded chain =>
    "$\x7bencodeURIComponent(".toList ++ chain.text ++ ".toString())\x7d".toList

@[simp] theorem Piece.text_char (c : Char) : (char c).text = [c] := rfl

@[simp] theorem Piece.text_value (chain : Chain) :
    (value chain).text = '$' :: '{' :: (chain.text ++ ['}']) := rfl

@[simp] theorem Piece.text_encoded (chain : Chain) :
    (encoded chain).text = '$' :: '{' :: ("encodeURIComponent(".toList ++
      (chain.text ++ ".toString())".toList) ++ ['}']) := by
  have split : (encoded chain).text = "$\x7bencodeURIComponent(".toList ++ chain.text ++
      ".toString())\x7d".toList := rfl
  rw [split]
  simp

def Body.text : Body → List Char
  | null => "null".toList
  | stringify chain => "JSON.stringify(".toList ++ (chain.text ++ ")".toList)
  | stringifyOrEmpty chain => "JSON.stringify(".toList ++ (chain.text ++ " ?? \x7b\x7d)".toList)

/-- No name goes on in a text. -/
def EndsName (rest : List Char) : Prop :=
  ∀ c ∈ rest.head?, isNameChar c = false

/-- No chain goes on in a text. -/
def EndsChain (rest : List Char) : Prop :=
  EndsName rest ∧ readLink rest = none

/-- The variable and the members of a chain have names. -/
def Chain.Named (chain : Chain) : Prop :=
  IsName chain.root ∧ ∀ link ∈ chain.links, IsName link.name

/-- Pieces that are read back: chains with names, and characters without a meaning of their own. -/
def Piece.Plain : Piece → Prop
  | char c => c ∉ ['\x60', '\\', '{']
  | value chain => chain.Named
  | encoded chain => chain.Named

theorem dropPrefix?_append (front rest : List Char) :
    (front ++ rest).dropPrefix? front = some rest :=
  List.dropPrefix?_eq_some_iff.mpr ⟨front, rfl, beq_self_eq_true front⟩

/-- Neither text begins with the other. -/
def Apart (first second : String) : Prop :=
  ¬first.toList <+: second.toList ∧ ¬second.toList <+: first.toList

instance (first second : String) : Decidable (Apart first second) :=
  inferInstanceAs (Decidable (_ ∧ _))

theorem eq_toList_of_apart {first second : String} {rest : List Char}
    (apart : Apart first second) : (first.toList ++ rest = second.toList) = False :=
  eq_false fun same => apart.1 ⟨rest, same⟩

theorem dropPrefix?_of_apart {first second : String} {rest : List Char}
    (apart : Apart first second) : (first.toList ++ rest).dropPrefix? second.toList = none := by
  refine Option.eq_none_iff_forall_ne_some.mpr fun behind found => ?_
  obtain ⟨front, split, same⟩ := List.dropPrefix?_eq_some_iff.mp found
  obtain rfl := eq_of_beq same
  rcases List.prefix_or_prefix_of_prefix ⟨rest, rfl⟩ ⟨behind, split.symm⟩ with shorter | longer
  · exact apart.1 shorter
  · exact apart.2 longer

theorem endsChain_nil : EndsChain [] :=
  ⟨by simp [EndsName], rfl⟩

theorem endsChain_cons {c : Char} {rest : List Char} (other : isNameChar c = false)
    (noDot : c ∉ ['.', '?']) : EndsChain (c :: rest) := by
  simp only [List.mem_cons, List.not_mem_nil, or_false, not_or] at noDot
  exact ⟨by simpa [EndsName] using other, by simp [readLink, noDot]⟩

/-- The chain of a body has names. -/
def Body.Named : Body → Prop
  | null => True
  | stringify chain => chain.Named
  | stringifyOrEmpty chain => chain.Named

/-- A scan goes as far as the characters that are scanned. -/
theorem scan_append {scanned : Char → Bool} {front rest : List Char}
    (inside : ∀ c ∈ front, scanned c = true) (ends : ∀ c ∈ rest.head?, scanned c = false) :
    (front ++ rest).takeWhile scanned = front ∧ (front ++ rest).dropWhile scanned = rest := by
  rw [List.takeWhile_append_of_pos inside, List.dropWhile_append_of_pos inside]
  cases rest with
  | nil => exact ⟨List.append_nil front, rfl⟩
  | cons c rest =>
    have other : scanned c = false := ends c rfl
    simp [other]

section Chains

variable {name : String} {link : Link} {chain : Chain} {rest : List Char}

theorem readName_append (named : IsName name) (ends : EndsName rest) :
    readName (name.toList ++ rest) = some (name, rest) := by
  obtain ⟨nonempty, chars⟩ := named
  obtain ⟨taken, left⟩ := scan_append chars ends
  rw [readName, taken, left, if_neg nonempty, String.ofList_toList]

theorem readLink_append (named : IsName link.name) (ends : EndsName rest) :
    readLink (link.text ++ rest) = some (link, rest) := by
  obtain ⟨optional, name⟩ := link
  cases optional with
  | false => simp [Link.text, readLink, readName_append named ends]
  | true => simp [Link.text, readLink, readName_append named ends]

theorem endsName_links {links : List Link} (ends : EndsName rest) :
    EndsName (links.flatMap Link.text ++ rest) := by
  cases links with
  | nil => exact ends
  | cons link links =>
    have outside : isNameChar '.' = false ∧ isNameChar '?' = false := by decide
    obtain ⟨optional, name⟩ := link
    cases optional <;> simp [Link.text, EndsName, outside]

theorem readLinks_of_end (ends : readLink rest = none) : readLinks rest = ([], rest) := by
  rw [readLinks]
  split
  · rfl
  · next found _ read => simp [read] at ends

theorem readLinks_of_link {cs : List Char} (read : readLink cs = some (link, rest)) :
    readLinks cs = (link :: (readLinks rest).1, (readLinks rest).2) := by
  rw [readLinks]
  split
  · next ends => simp [read] at ends
  · next found rest' again =>
    obtain ⟨rfl, rfl⟩ : link = found ∧ rest = rest' := by simpa using read.symm.trans again
    rfl

theorem readLinks_append {links : List Link} (named : ∀ link ∈ links, IsName link.name)
    (ends : EndsChain rest) :
    readLinks (links.flatMap Link.text ++ rest) = (links, rest) := by
  induction links with
  | nil => exact readLinks_of_end ends.2
  | cons link links ih =>
    rw [List.forall_mem_cons] at named
    rw [List.flatMap_cons, List.append_assoc,
      readLinks_of_link (readLink_append named.1 (endsName_links ends.1)), ih named.2]

theorem readChain_append (named : chain.Named) (ends : EndsChain rest) :
    readChain (chain.text ++ rest) = some (chain, rest) := by
  rw [readChain, Chain.text, List.append_assoc,
    readName_append named.1 (endsName_links ends.1), Option.map_some]
  simp only [readLinks_append named.2 ends]

/-- A chain holds no characters but those of names, dots and question marks. -/
theorem not_mem_text (named : chain.Named) {c : Char} (other : isNameChar c = false)
    (noDot : c ∉ ['.', '?']) : c ∉ chain.text := by
  have outside {name : String} (isName : IsName name) : c ∉ name.toList := fun mem => by
    simp [isName.2 c mem] at other
  simp only [List.mem_cons, List.not_mem_nil, or_false, not_or] at noDot
  rw [Chain.text, List.mem_append, List.mem_flatMap]
  rintro (mem | ⟨link, listed, mem⟩)
  · exact outside named.1 mem
  · rcases List.mem_append.mp mem with dots | mem
    · cases optional : link.optional <;> simp [optional, noDot] at dots
    · exact outside (named.2 link listed) mem

end Chains

section Sound

variable {name : String} {link : Link} {chain : Chain} {cs rest : List Char}

theorem isName_of_readName (read : readName cs = some (name, rest)) : IsName name := by
  rw [readName] at read
  split at read
  · cases read
  · next nonempty =>
    cases read
    refine ⟨by simpa using nonempty, fun c mem => ?_⟩
    rw [String.toList_ofList] at mem
    exact List.mem_takeWhile_imp mem

theorem isName_of_readLink (read : readLink cs = some (link, rest)) : IsName link.name := by
  cases cs with
  | nil => cases read
  | cons c cs =>
    rw [readLink] at read
    split at read
    · obtain ⟨_, found, ⟨⟩⟩ := Option.map_eq_some_iff.mp read
      exact isName_of_readName found
    · split at read
      · obtain ⟨_, found, ⟨⟩⟩ := Option.map_eq_some_iff.mp read
        exact isName_of_readName found
      · cases read

theorem isName_of_mem_readLinks (listed : link ∈ (readLinks cs).1) : IsName link.name := by
  fun_induction readLinks cs with
  | case1 => cases listed
  | case2 cs first rest read others behind split ih =>
    rw [split] at ih
    rcases List.mem_cons.mp listed with rfl | later
    · exact isName_of_readLink read
    · exact ih later

/-- Whatever is read as a chain has names. -/
theorem named_of_readChain (read : readChain cs = some (chain, rest)) : chain.Named := by
  rw [readChain] at read
  obtain ⟨⟨root, behind⟩, found, ⟨⟩⟩ := Option.map_eq_some_iff.mp read
  exact ⟨isName_of_readName found, fun link listed => isName_of_mem_readLinks listed⟩

theorem named_of_readHole (read : readHole cs = some (.value chain)) : chain.Named := by
  rw [readHole] at read
  split at read
  · obtain ⟨_, -, read⟩ := Option.bind_eq_some_iff.mp read
    obtain ⟨_, -, read⟩ := Option.bind_eq_some_iff.mp read
    split at read <;> cases read
  · obtain ⟨⟨other, rest⟩, found, read⟩ := Option.bind_eq_some_iff.mp read
    dsimp only at read
    split at read
    · cases read
      exact named_of_readChain found
    · cases read

end Sound

namespace Chain

variable {names : List String}

theorem isName_request : IsName "request" := by
  decide

theorem named_plain (named : ∀ name ∈ names, IsName name) : (plain names).Named :=
  ⟨isName_request, by simpa [plain] using named⟩

theorem named_lenient (named : ∀ name ∈ names, IsName name) : (lenient names).Named :=
  ⟨isName_request, by simpa [lenient] using named⟩

theorem named_guarded (named : ∀ name ∈ names, IsName name) : (guarded names).Named := by
  cases names with
  | nil => exact ⟨isName_request, by simp [guarded]⟩
  | cons name names => exact ⟨isName_request, by simpa [guarded] using named⟩

theorem toList_intercalate_cons (sep name : String) (names : List String) :
    (sep.intercalate (name :: names)).toList =
      name.toList ++ names.flatMap fun name => sep.toList ++ name.toList := by
  induction names generalizing name with
  | nil => simp
  | cons next names ih => simp [String.intercalate_cons_cons, ih]

theorem text_of_links (first others : Bool) (name : String) (names : List String) :
    (Chain.mk "request" (⟨first, name⟩ :: names.map (⟨others, ·⟩))).text =
      "request".toList ++ (if first then "?." else ".").toList ++
        ((if others then "?." else ".").intercalate (name :: names)).toList := by
  rw [toList_intercalate_cons]
  simp [text, Link.text, List.flatMap_map]

theorem text_plain (nonempty : names ≠ []) :
    (plain names).text = "request.".toList ++ (".".intercalate names).toList := by
  obtain ⟨name, names, rfl⟩ := List.exists_cons_of_ne_nil nonempty
  exact text_of_links false false name names

theorem text_guarded (nonempty : names ≠ []) :
    (guarded names).text = "request.".toList ++ ("?.".intercalate names).toList := by
  obtain ⟨name, names, rfl⟩ := List.exists_cons_of_ne_nil nonempty
  exact text_of_links false true name names

theorem text_lenient (nonempty : names ≠ []) :
    (lenient names).text = "request?.".toList ++ ("?.".intercalate names).toList := by
  obtain ⟨name, names, rfl⟩ := List.exists_cons_of_ne_nil nonempty
  exact text_of_links true true name names

end Chain

section Calls

variable {chain : Chain} {method : String}

def Chain.calling (chain : Chain) (method : String) : Chain :=
  ⟨chain.root, chain.links ++ [⟨false, method⟩]⟩

theorem Chain.text_calling : (chain.calling method).text = chain.text ++ '.' :: method.toList := by
  simp [calling, text, Link.text]

theorem Chain.receiver?_calling : (chain.calling method).receiver? method = some chain := by
  simp [calling, receiver?]

theorem Chain.Named.calling (named : chain.Named) (isName : IsName method) :
    (chain.calling method).Named := by
  refine ⟨named.1, List.forall_mem_append.mpr ⟨named.2, ?_⟩⟩
  simpa using isName

end Calls

section Literals

variable {chain : Chain} {piece : Piece} {pieces : List Piece} {rest : List Char}

theorem readHole_value (named : chain.Named) : readHole chain.text = some (.value chain) := by
  have noCall : chain.text.dropPrefix? "encodeURIComponent(".toList = none := by
    rw [Option.eq_none_iff_forall_ne_some]
    intro behind called
    obtain ⟨front, split, same⟩ := List.dropPrefix?_eq_some_iff.mp called
    rw [beq_iff_eq] at same
    refine not_mem_text named (c := '(') (by decide) (by decide) ?_
    rw [split, same]
    simp
  have read : readChain chain.text = some (chain, []) := by
    rw [← List.append_nil chain.text]
    exact readChain_append named endsChain_nil
  rw [readHole, noCall, read]
  rfl

theorem readHole_encoded (named : chain.Named) :
    readHole ("encodeURIComponent(".toList ++ (chain.text ++ ".toString())".toList)) =
      some (.encoded chain) := by
  have read : readChain (chain.text ++ ".toString())".toList) =
      some (chain.calling "toString", "())".toList) := by
    have split : chain.text ++ ".toString())".toList =
        (chain.calling "toString").text ++ "())".toList := by
      simp [Chain.text_calling]
    rw [split]
    exact readChain_append (named.calling (by decide)) (endsChain_cons (by decide) (by decide))
  rw [readHole, dropPrefix?_append]
  simp only [read, Option.bind_eq_bind, Option.bind_some, Chain.receiver?_calling, if_true]

theorem readLiteral_of_end : readLiteral ('\x60' :: rest) = some ([], rest) := by
  rw [readLiteral, if_pos rfl]

theorem readLiteral_of_char {c : Char} (plain : c ∉ ['\x60', '\\'])
    (noHole : rest.head? ≠ some '{') :
    readLiteral (c :: rest) =
      (readLiteral rest).map fun (pieces, rest) => (.char c :: pieces, rest) := by
  simp only [List.mem_cons, List.not_mem_nil, or_false, not_or] at plain
  rw [readLiteral, if_neg plain.1, if_neg plain.2, if_neg fun both => noHole both.2]
  cases readLiteral rest <;> rfl

theorem readLiteral_of_hole {inner : List Char} (closed : '}' ∉ inner)
    (read : readHole inner = some piece) :
    readLiteral ('$' :: '{' :: (inner ++ '}' :: rest)) =
      (readLiteral rest).map fun (pieces, rest) => (piece :: pieces, rest) := by
  have cut : Text.cutFirst '}' ('{' :: (inner ++ '}' :: rest)) = some ('{' :: inner, rest) :=
    Text.cutFirst_eq_some_iff.mpr ⟨by simp [closed], by simp⟩
  rw [readLiteral, if_neg (by decide), if_neg (by decide), if_pos ⟨rfl, rfl⟩]
  split
  · next none => simp [none] at cut
  · next inner' rest' again =>
    obtain ⟨rfl, rfl⟩ : '{' :: inner = inner' ∧ rest = rest' := by simpa using cut.symm.trans again
    rw [List.tail_cons, read]
    cases readLiteral rest <;> rfl

/-- A hole is never mistaken for one that begins with the character before it. -/
theorem head?_pieces (plain : ∀ piece ∈ pieces, piece.Plain) :
    (pieces.flatMap Piece.text ++ '\x60' :: rest).head? ≠ some '{' := by
  cases pieces with
  | nil => simp
  | cons piece pieces =>
    have first := plain piece List.mem_cons_self
    cases piece with
    | char c =>
      simp only [Piece.Plain, List.mem_cons, List.not_mem_nil, or_false, not_or] at first
      simpa using first.2.2
    | value chain => simp
    | encoded chain => simp

theorem readLiteral_append (plain : ∀ piece ∈ pieces, piece.Plain) :
    readLiteral (pieces.flatMap Piece.text ++ '\x60' :: rest) = some (pieces, rest) := by
  induction pieces with
  | nil => exact readLiteral_of_end
  | cons piece pieces ih =>
    rw [List.forall_mem_cons] at plain
    have others := ih plain.2
    rw [List.flatMap_cons, List.append_assoc]
    cases piece with
    | char c =>
      have first : c ∉ ['\x60', '\\', '{'] := plain.1
      simp only [List.mem_cons, List.not_mem_nil, or_false, not_or] at first
      rw [Piece.text_char, List.singleton_append,
        readLiteral_of_char (by simp [first]) (head?_pieces plain.2), others, Option.map_some]
    | value chain =>
      have closed : '}' ∉ chain.text := not_mem_text plain.1 (by decide) (by decide)
      rw [Piece.text_value, List.cons_append, List.cons_append, List.append_assoc,
        List.singleton_append, readLiteral_of_hole closed (readHole_value plain.1), others,
        Option.map_some]
    | encoded chain =>
      have noBrace : '}' ∉ chain.text := not_mem_text plain.1 (by decide) (by decide)
      have closed : '}' ∉ "encodeURIComponent(".toList ++
          (chain.text ++ ".toString())".toList) := by
        simp [noBrace]
      rw [Piece.text_encoded, List.cons_append, List.cons_append, List.append_assoc _ ['}'],
        List.singleton_append, readLiteral_of_hole closed (readHole_encoded plain.1), others,
        Option.map_some]

end Literals

theorem readQuoted_escapeChar (c : Char) (cs : List Char) :
    readQuoted (Text.escapeChar c ++ cs) =
      (readQuoted cs).map fun (text, rest) => (c :: text, rest) := by
  have escaped (letter : Char) (known : unescape letter = some c) :
      readQuoted ('\\' :: letter :: cs) =
        (readQuoted cs).map fun (text, rest) => (c :: text, rest) := by
    rw [readQuoted, known]
    cases readQuoted cs <;> rfl
  by_cases quote : c = '"'
  · subst quote
    exact escaped '"' rfl
  by_cases backslash : c = '\\'
  · subst backslash
    exact escaped '\\' rfl
  by_cases feed : c = '\n'
  · subst feed
    exact escaped 'n' rfl
  by_cases carriage : c = '\r'
  · subst carriage
    exact escaped 'r' rfl
  by_cases tab : c = '\t'
  · subst tab
    exact escaped 't' rfl
  have itself : Text.escapeChar c = [c] := by
    simp [Text.escapeChar]
  rw [itself, List.singleton_append, readQuoted]
  · exact quote
  · exact feed
  · exact fun same _ => backslash same
  · exact fun _ _ same _ => backslash same

theorem readQuoted_append (text rest : List Char) :
    readQuoted (text.flatMap Text.escapeChar ++ '"' :: rest) = some (text, rest) := by
  induction text with
  | nil => rfl
  | cons c text ih =>
    rw [List.flatMap_cons, List.append_assoc, readQuoted_escapeChar, ih, Option.map_some]

theorem readBody_append {body : Body} (named : body.Named) (rest : List Char) :
    readBody (body.text ++ rest) = some (body, rest) := by
  have noNull (cs : List Char) :
      ("JSON.stringify(".toList ++ cs).dropPrefix? "null".toList = none :=
    dropPrefix?_of_apart (by decide)
  cases body with
  | null =>
    have text : Body.null.text = "null".toList := rfl
    rw [readBody, text, dropPrefix?_append]
  | stringify chain =>
    have text : (Body.stringify chain).text =
        "JSON.stringify(".toList ++ (chain.text ++ ")".toList) := rfl
    have read : readChain (chain.text ++ (")".toList ++ rest)) = some (chain, ")".toList ++ rest) :=
      readChain_append named (endsChain_cons (c := ')') (by decide) (by decide))
    have noDefault : (")".toList ++ rest).dropPrefix? " ?? \x7b\x7d)".toList = none :=
      dropPrefix?_of_apart (by decide)
    rw [text, readBody, List.append_assoc, noNull, dropPrefix?_append, List.append_assoc]
    simp only [Option.bind_eq_bind, Option.bind_some, read, noDefault, dropPrefix?_append,
      Option.map_some]
  | stringifyOrEmpty chain =>
    have text : (Body.stringifyOrEmpty chain).text =
        "JSON.stringify(".toList ++ (chain.text ++ " ?? \x7b\x7d)".toList) := rfl
    have read : readChain (chain.text ++ (" ?? \x7b\x7d)".toList ++ rest)) =
        some (chain, " ?? \x7b\x7d)".toList ++ rest) :=
      readChain_append named (endsChain_cons (c := ' ') (by decide) (by decide))
    rw [text, readBody, List.append_assoc, noNull, dropPrefix?_append, List.append_assoc]
    simp only [Option.bind_eq_bind, Option.bind_some, read, dropPrefix?_append]

section Lines

variable {chain : Chain} {pieces : List Piece}

theorem between_append {α : Type} {before after : String} {text : List Char} {found : α}
    {read : List Char → Option (α × List Char)}
    (reads : read (text ++ after.toList) = some (found, after.toList)) :
    between before read after (before.toList ++ (text ++ after.toList)) = some found := by
  rw [between, dropPrefix?_append]
  simp [reads]

/-- A line that begins in another way than a form of lines does not have this form. -/
theorem between_of_apart {α : Type} {first before after : String} {rest : List Char}
    {read : List Char → Option (α × List Char)} (apart : Apart first before) :
    between before read after (first.toList ++ rest) = none := by
  rw [between, dropPrefix?_of_apart apart]
  rfl

theorem readLine_when (named : chain.Named) :
    readLine ("if (".toList ++ (chain.text ++ ") \x7b".toList)) = some (.when chain) := by
  have line : between "if (" readChain ") \x7b"
      ("if (".toList ++ (chain.text ++ ") \x7b".toList)) = some chain :=
    between_append (readChain_append named (endsChain_cons (by decide) (by decide)))
  rw [readLine, line]
  simp (disch := decide) only [eq_toList_of_apart, if_false]
  rfl

theorem readLine_unless (named : chain.Named) :
    readLine ("if (!".toList ++ (chain.text ++ ") \x7b".toList)) = some (.unless chain) := by
  have line : between "if (!" readChain ") \x7b"
      ("if (!".toList ++ (chain.text ++ ") \x7b".toList)) = some chain :=
    between_append (readChain_append named (endsChain_cons (by decide) (by decide)))
  have noWhen : between "if (" readChain ") \x7b"
      ("if (!".toList ++ (chain.text ++ ") \x7b".toList)) = none := by
    have noName : isNameChar '!' = false := by decide
    simp [between, List.dropPrefix?, readChain, readName, noName]
  rw [readLine, noWhen, line]
  simp (disch := decide) only [eq_toList_of_apart, if_false]
  rfl

theorem readLine_throw (message : String) :
    readLine ("throw new Error(".toList ++ ((Text.quote message).toList ++ ");".toList)) =
      some (.throw message) := by
  have line : between "throw new Error(\"" readQuoted ");"
      ("throw new Error(".toList ++ ((Text.quote message).toList ++ ");".toList)) =
        some message.toList := by
    have split : "throw new Error(".toList ++ ((Text.quote message).toList ++ ");".toList) =
        "throw new Error(\"".toList ++
          ((message.toList.flatMap Text.escapeChar ++ ['"']) ++ ");".toList) := by
      simp [Text.quote]
    rw [split]
    refine between_append ?_
    rw [List.append_assoc]
    exact readQuoted_append _ _
  rw [readLine, line]
  simp (disch := decide) only [eq_toList_of_apart, between_of_apart, if_false, Option.map_some,
    String.ofList_toList]
  rfl

theorem readLine_path (plain : ∀ piece ∈ pieces, piece.Plain) :
    readLine ("const path = `".toList ++
      (pieces.flatMap Piece.text ++ "`; // eslint-disable-line quotes".toList)) =
      some (.path pieces) := by
  have line : between "const path = `" readLiteral "; // eslint-disable-line quotes"
      ("const path = `".toList ++
        (pieces.flatMap Piece.text ++ "`; // eslint-disable-line quotes".toList)) =
        some pieces := by
    have split : pieces.flatMap Piece.text ++ "`; // eslint-disable-line quotes".toList =
        (pieces.flatMap Piece.text ++ ['\x60']) ++ "; // eslint-disable-line quotes".toList := by
      simp
    rw [split]
    refine between_append ?_
    rw [List.append_assoc]
    exact readLiteral_append plain
  rw [readLine, line]
  simp (disch := decide) only [eq_toList_of_apart, between_of_apart, if_false]
  rfl

theorem readLine_push (plain : ∀ piece ∈ pieces, piece.Plain) :
    readLine ("queryParams.push(`".toList ++ (pieces.flatMap Piece.text ++ "`)".toList)) =
      some (.push pieces) := by
  have line : between "queryParams.push(`" readLiteral ")"
      ("queryParams.push(`".toList ++ (pieces.flatMap Piece.text ++ "`)".toList)) =
        some pieces := by
    have split : pieces.flatMap Piece.text ++ "`)".toList =
        (pieces.flatMap Piece.text ++ ['\x60']) ++ ")".toList := by
      simp
    rw [split]
    refine between_append ?_
    rw [List.append_assoc]
    exact readLiteral_append plain
  rw [readLine, line]
  simp (disch := decide) only [eq_toList_of_apart, between_of_apart, if_false]
  rfl

theorem readLine_body {body : Body} (named : body.Named) :
    readLine ("const body = ".toList ++ (body.text ++ ";".toList)) = some (.body body) := by
  have line : between "const body = " readBody ";"
      ("const body = ".toList ++ (body.text ++ ";".toList)) = some body :=
    between_append (readBody_append named _)
  rw [readLine, line]
  simp (disch := decide) only [eq_toList_of_apart, between_of_apart, if_false]
  rfl

theorem readLine_forEach (named : chain.Named) (request : chain.root = "request") :
    readLine ((chain.calling "forEach").text ++ "((x) => \x7b".toList) =
      some (.forEach chain) := by
  have line : between "" readChain "((x) => \x7b"
      ((chain.calling "forEach").text ++ "((x) => \x7b".toList) =
        some (chain.calling "forEach") := by
    have called : (chain.calling "forEach").Named := named.calling (by decide)
    exact @between_append _ "" _ _ _ _
      (readChain_append called (endsChain_cons (by decide) (by decide)))
  have start : (chain.calling "forEach").text ++ "((x) => \x7b".toList =
      "request".toList ++ ((chain.calling "forEach").links.flatMap Link.text ++
        "((x) => \x7b".toList) := by
    have root : (chain.calling "forEach").root = "request" := request
    rw [Chain.text, root, List.append_assoc]
  rw [readLine, line, start]
  simp (disch := decide) only [eq_toList_of_apart, between_of_apart, if_false, Option.bind_some,
    Chain.receiver?_calling]
  rfl

theorem readLine_query : readLine "const queryParams: string[] = [];".toList = some .query := by
  rw [readLine, if_pos rfl]

theorem readLine_close : readLine "\x7d".toList = some .close := by
  rw [readLine, if_neg (by decide), if_pos rfl]

theorem readLine_closeEach : readLine "\x7d)".toList = some .closeEach := by
  rw [readLine, if_neg (by decide), if_neg (by decide), if_pos rfl]

end Lines

end HttpClientGen.Script
