import HttpClientGen.Descriptor.Load
import HttpClientGen.Proofs.Lookup

/-!
# Paths of declarations

The lists that make up a descriptor have numbers. A declaration is reached from its file through
such lists, and its path names each of them by its number, with a position in it. A walk over a file
visits what stands in it, apart from the entries of maps and all that is inside of them. The entries
take up positions nevertheless. The paths of what is visited are those that lead to something
without passing an entry, each of them once.
-/

namespace HttpClientGen.Descriptor

/-- Something that is declared in a file and may have a comment. -/
inductive Declaration
  | message (message : Message)
  | field (field : Field)
  | enumeration (enumeration : Enumeration)
  | enumValue (value : EnumValue)
  | service (service : Service)
  | method (method : Method)

/-- Lists of declarations, with the numbers that the format of descriptors gives them. -/
abbrev Lists := List (Int × List Declaration)

namespace Lists

/-- The declarations in some lists, each with the number of its list and its position there. -/
def entries (lists : Lists) : List ((Int × Int) × Declaration) :=
  lists.flatMap fun (number, listed) =>
    listed.mapIdx fun position declaration => ((number, (position : Int)), declaration)

/-- What stands at a position of the list with a number. -/
def at? (lists : Lists) (number position : Int) : Option Declaration :=
  (lists.lookup number).bind fun listed => if position < 0 then none else listed[position.toNat]?

end Lists

namespace Declaration

def name : Declaration → String
  | .message declared => declared.name
  | .field declared => declared.name
  | .enumeration declared => declared.name
  | .enumValue declared => declared.name
  | .service declared => declared.name
  | .method declared => declared.name

def kind : Declaration → DefinitionKind
  | .message _ => .message
  | .field _ => .field
  | .enumeration _ => .enumeration
  | .enumValue _ => .enumValue
  | .service _ => .service
  | .method _ => .method

def isMapEntry : Declaration → Bool
  | .message declared => declared.isMapEntry
  | _ => false

def lists : Declaration → Lists
  | .message declared =>
    [(2, declared.fields.map .field), (4, declared.enums.map .enumeration),
      (3, declared.nested.map .message)]
  | .enumeration declared => [(2, declared.values.map .enumValue)]
  | .service declared => [(2, declared.methods.map .method)]
  | .field _ | .enumValue _ | .method _ => []

/-- The declaration that a path leads to from another one. -/
def follow? (declaration : Declaration) : List Int → Option Declaration
  | [] => some declaration
  | [_] => none
  | number :: position :: path =>
    (declaration.lists.at? number position).bind fun inner => inner.follow? path

end Declaration

def File.lists (file : File) : Lists :=
  [(5, file.enums.map .enumeration), (4, file.messages.map .message),
    (6, file.services.map .service)]

def File.at? (file : File) : List Int → Option Declaration
  | number :: position :: path =>
    (file.lists.at? number position).bind fun declaration => declaration.follow? path
  | _ => none

/-- No beginning of a path leads to something that only describes the entries of a map. -/
def AvoidsEntries (lead : List Int → Option Declaration) (path : List Int) : Prop :=
  ∀ front declaration, front <+: path → lead front = some declaration →
    declaration.isMapEntry = false

theorem Lists.mem_entries_iff {lists : Lists} {number position : Int} {declaration : Declaration} :
    ((number, position), declaration) ∈ lists.entries ↔ ∃ listed, (number, listed) ∈ lists ∧
      ∃ index : Nat, listed[index]? = some declaration ∧ position = index := by
  rw [entries, List.mem_flatMap]
  constructor
  · rintro ⟨⟨other, listed⟩, isList, isEntry⟩
    obtain ⟨index, inRange, same⟩ := List.mem_mapIdx.mp isEntry
    simp only [Prod.mk.injEq] at same
    obtain ⟨⟨rfl, rfl⟩, rfl⟩ := same
    exact ⟨listed, isList, index, List.getElem?_eq_getElem inRange, rfl⟩
  · rintro ⟨listed, isList, index, atIndex, rfl⟩
    obtain ⟨inRange, rfl⟩ := List.getElem?_eq_some_iff.mp atIndex
    exact ⟨_, isList, List.mem_mapIdx.mpr ⟨index, inRange, rfl⟩⟩

theorem Lists.mem_entries_iff_at? {lists : Lists} (numbered : (lists.map (·.1)).Nodup)
    {number position : Int} {declaration : Declaration} :
    ((number, position), declaration) ∈ lists.entries ↔
      lists.at? number position = some declaration := by
  rw [mem_entries_iff, at?, Option.bind_eq_some_iff]
  refine exists_congr fun listed => ?_
  rw [lookup_eq_some_iff_of_distinct numbered]
  refine and_congr_right fun _ => ?_
  constructor
  · rintro ⟨index, atIndex, rfl⟩
    rwa [if_neg (by omega), Int.toNat_natCast]
  · intro found
    split at found
    · cases found
    · exact ⟨position.toNat, found, by omega⟩

theorem Declaration.nodup_lists (declaration : Declaration) :
    (declaration.lists.map (·.1)).Nodup := by
  cases declaration <;> simp [lists]

theorem File.nodup_lists (file : File) : (file.lists.map (·.1)).Nodup := by
  simp [lists]

/-- No two entries share their number and position. -/
theorem Lists.nodup_entries {lists : Lists} (numbered : (lists.map (·.1)).Nodup) :
    (lists.entries.map (·.1)).Nodup := by
  have number {list : Int × List Declaration} {key : Int × Int}
      (listed : key ∈ (list.2.mapIdx fun position declaration =>
        ((list.1, (position : Int)), declaration)).map (·.1)) : key.1 = list.1 := by
    obtain ⟨entry, isEntry, rfl⟩ := List.mem_map.mp listed
    obtain ⟨index, inRange, rfl⟩ := List.mem_mapIdx.mp isEntry
    rfl
  rw [entries, List.map_flatMap, List.nodup_flatMap]
  constructor
  · intro list _
    refine List.pairwise_iff_getElem.mpr fun front back _ _ less same => ?_
    simp only [List.getElem_map, List.getElem_mapIdx, Prod.mk.injEq] at same
    omega
  · refine (List.pairwise_map.mp numbered).imp fun differ key inFirst inSecond => ?_
    exact differ ((number inFirst).symm.trans (number inSecond))

/-- What stands inside of a declaration is smaller. -/
theorem Declaration.sizeOf_lt_of_mem_lists (declaration : Declaration) :
    ∀ list ∈ declaration.lists, ∀ inner ∈ list.2, sizeOf inner < sizeOf declaration := by
  cases declaration with
  | message declared =>
    cases declared
    simp only [lists, List.forall_mem_cons, List.forall_mem_map]
    refine ⟨fun _ listed => ?_, fun _ listed => ?_, fun _ listed => ?_, nofun⟩
    all_goals
      have smaller := List.sizeOf_lt_of_mem listed
      simp
      omega
  | enumeration declared | service declared =>
    cases declared
    simp only [lists, List.forall_mem_cons, List.forall_mem_map]
    refine ⟨fun _ listed => ?_, nofun⟩
    have smaller := List.sizeOf_lt_of_mem listed
    simp
    omega
  | field _ | enumValue _ | method _ => exact nofun

theorem Declaration.sizeOf_lt_of_mem_entries {declaration : Declaration}
    {entry : (Int × Int) × Declaration} (listed : entry ∈ declaration.lists.entries) :
    sizeOf entry.2 < sizeOf declaration := by
  obtain ⟨list, isList, index, atIndex, -⟩ := Lists.mem_entries_iff.mp listed
  exact declaration.sizeOf_lt_of_mem_lists _ isList _ (List.mem_of_getElem? atIndex)

/-- What holds of a declaration if it holds of all that stands directly inside holds of all
declarations. -/
theorem Declaration.insideInduction {P : Declaration → Prop}
    (step : ∀ declaration : Declaration, (∀ entry ∈ declaration.lists.entries, P entry.2) →
      P declaration) (declaration : Declaration) : P declaration :=
  step declaration fun entry _ => insideInduction step entry.2
termination_by sizeOf declaration
decreasing_by exact sizeOf_lt_of_mem_entries ‹_›

/-- Something that a walk visits: where it stands, what it is called in its file, and what it is. -/
structure Site where
  path : List Int
  name : String
  declaration : Declaration

/-- What a walk visits that comes to a declaration in a scope: the declaration and what is inside of
it, but nothing if it only describes the entries of a map. -/
def Declaration.sites (scope : String) (path : List Int) (declaration : Declaration) : List Site :=
  if declaration.isMapEntry then []
  else
    let name := scopedName scope declaration.name
    ⟨path, name, declaration⟩ :: declaration.lists.entries.attach.flatMap fun ⟨entry, _⟩ =>
      entry.2.sites name (path ++ [entry.1.1, entry.1.2])
termination_by sizeOf declaration
decreasing_by exact sizeOf_lt_of_mem_entries ‹_›

def Lists.sites (scope : String) (path : List Int) (lists : Lists) : List Site :=
  lists.entries.flatMap fun entry => entry.2.sites scope (path ++ [entry.1.1, entry.1.2])

def File.sites (file : File) : List Site :=
  file.lists.sites "" []

theorem Declaration.sites_of_isMapEntry {declaration : Declaration}
    (isEntry : declaration.isMapEntry = true) (scope : String) (path : List Int) :
    declaration.sites scope path = [] := by
  rw [sites, if_pos isEntry]

theorem Declaration.sites_of_kept {declaration : Declaration}
    (kept : declaration.isMapEntry = false) (scope : String) (path : List Int) :
    declaration.sites scope path = ⟨path, scopedName scope declaration.name, declaration⟩ ::
      declaration.lists.sites (scopedName scope declaration.name) path := by
  rw [sites, if_neg (by simp [kept]), Lists.sites]
  refine congrArg (List.cons _) ?_
  conv_rhs => rw [← List.attach_map_subtype_val declaration.lists.entries, List.flatMap_map]

/-- A walk over lists of declarations goes through them one after the other. -/
theorem Lists.sites_cons {α : Type} (declare : α → Declaration) (scope : String) (path : List Int)
    (number : Int) (xs : List α) (lists : Lists) :
    Lists.sites scope path ((number, xs.map declare) :: lists) =
      (xs.zipIdx.flatMap fun x => (declare x.1).sites scope (path ++ [number, (x.2 : Int)])) ++
        lists.sites scope path := by
  rw [sites, entries, List.flatMap_cons, List.flatMap_append]
  refine congrArg₂ (· ++ ·) ?_ rfl
  simp only [List.mapIdx_eq_zipIdx_map, List.zipIdx_map, List.flatMap_map]
  rfl

section Distinct

theorem Lists.mem_sites_iff {lists : Lists} {scope : String} {path : List Int} {site : Site} :
    site ∈ lists.sites scope path ↔ ∃ number position declaration,
      ((number, position), declaration) ∈ lists.entries ∧
        site ∈ declaration.sites scope (path ++ [number, position]) := by
  simp only [sites, List.mem_flatMap, Prod.exists]

/-- A walk stays below the path at which it starts. -/
theorem Declaration.prefix_of_mem_sites {declaration : Declaration} {scope : String}
    {path : List Int} {site : Site} (visited : site ∈ declaration.sites scope path) :
    path <+: site.path := by
  induction declaration using insideInduction generalizing scope path with
  | step declaration ih =>
    cases kept : declaration.isMapEntry with
    | true =>
      rw [sites_of_isMapEntry kept] at visited
      cases visited
    | false =>
      rw [sites_of_kept kept] at visited
      rcases List.mem_cons.mp visited with rfl | inside
      · exact List.prefix_rfl
      · obtain ⟨number, position, inner, isEntry, visited⟩ := Lists.mem_sites_iff.mp inside
        exact (List.prefix_append _ _).trans (ih _ isEntry visited)

/-- Only one step leads from a path towards a longer one. -/
theorem step_eq_of_below {path target : List Int} {first second : Int × Int}
    (left : path ++ [first.1, first.2] <+: target)
    (right : path ++ [second.1, second.2] <+: target) : first = second := by
  have same := (List.prefix_of_prefix_length_le left right (by simp)).eq_of_length (by simp)
  have steps := List.append_cancel_left same
  simp only [List.cons.injEq, and_true] at steps
  exact Prod.ext steps.1 steps.2

theorem Lists.nodup_sites {lists : Lists} (numbered : (lists.map (·.1)).Nodup)
    (each : ∀ entry ∈ lists.entries, ∀ scope path,
      ((entry.2.sites scope path).map (·.path)).Nodup) (scope : String) (path : List Int) :
    ((lists.sites scope path).map (·.path)).Nodup := by
  rw [sites, List.map_flatMap, List.nodup_flatMap]
  refine ⟨fun entry isEntry => each entry isEntry _ _, ?_⟩
  have apart := List.pairwise_map.mp (nodup_entries numbered)
  refine apart.imp fun differ target inFirst inSecond => ?_
  obtain ⟨first, visitsFirst, rfl⟩ := List.mem_map.mp inFirst
  obtain ⟨second, visitsSecond, same⟩ := List.mem_map.mp inSecond
  have below := Declaration.prefix_of_mem_sites visitsSecond
  rw [same] at below
  exact differ (step_eq_of_below (Declaration.prefix_of_mem_sites visitsFirst) below)

theorem Declaration.nodup_sites (declaration : Declaration) (scope : String) (path : List Int) :
    ((declaration.sites scope path).map (·.path)).Nodup := by
  induction declaration using insideInduction generalizing scope path with
  | step declaration ih =>
    cases kept : declaration.isMapEntry with
    | true =>
      rw [sites_of_isMapEntry kept]
      exact List.nodup_nil
    | false =>
      rw [sites_of_kept kept, List.map_cons, List.nodup_cons]
      refine ⟨fun listed => ?_, Lists.nodup_sites declaration.nodup_lists ih _ path⟩
      obtain ⟨site, inside, same⟩ := List.mem_map.mp listed
      obtain ⟨number, position, inner, -, visited⟩ := Lists.mem_sites_iff.mp inside
      have longer := (prefix_of_mem_sites visited).length_le
      simp only [same, List.length_append, List.length_cons, List.length_nil] at longer
      omega

/-- No two sites of a file share a path. -/
theorem File.nodup_sites (file : File) : (file.sites.map (·.path)).Nodup :=
  Lists.nodup_sites file.nodup_lists (fun entry _ => entry.2.nodup_sites) "" []

end Distinct

section Reaching

variable {declaration target : Declaration}

theorem Declaration.avoidsEntries_nil_iff :
    AvoidsEntries declaration.follow? [] ↔ declaration.isMapEntry = false := by
  constructor
  · intro avoids
    exact avoids [] declaration List.prefix_rfl rfl
  · intro kept front inner isFront reached
    obtain rfl := List.prefix_nil.mp isFront
    obtain rfl : declaration = inner := Option.some.inj reached
    exact kept

/-- A path whose first step leads to a declaration goes on from there. -/
theorem avoidsEntries_cons_iff {lead : List Int → Option Declaration} {number position : Int}
    {inner : Declaration} (half : lead [number] = none)
    (step : ∀ rest, lead (number :: position :: rest) = inner.follow? rest) (path : List Int) :
    AvoidsEntries lead (number :: position :: path) ↔
      (∀ start ∈ lead [], start.isMapEntry = false) ∧ AvoidsEntries inner.follow? path := by
  constructor
  · intro avoids
    refine ⟨fun start => avoids [] start List.nil_prefix, fun front reached isFront followed => ?_⟩
    refine avoids (number :: position :: front) reached ?_ (by rw [step, followed])
    simpa using isFront
  · rintro ⟨kept, avoids⟩ front reached isFront followed
    match front with
    | [] => exact kept reached followed
    | [first] =>
      obtain rfl : first = number := by simpa using isFront
      rw [half] at followed
      cases followed
    | first :: second :: front =>
      simp only [List.cons_prefix_cons] at isFront
      obtain ⟨rfl, rfl, isFront⟩ := isFront
      rw [step] at followed
      exact avoids front reached isFront followed

theorem Declaration.avoidsEntries_iff_of_at? (kept : declaration.isMapEntry = false)
    {number position : Int} {inner : Declaration}
    (found : declaration.lists.at? number position = some inner) (path : List Int) :
    AvoidsEntries declaration.follow? (number :: position :: path) ↔
      AvoidsEntries inner.follow? path := by
  rw [avoidsEntries_cons_iff rfl (fun rest => by rw [follow?, found, Option.bind_some])]
  exact and_iff_right fun start same => Option.some.inj same ▸ kept

theorem File.avoidsEntries_iff_of_at? {file : File} {number position : Int} {inner : Declaration}
    (found : file.lists.at? number position = some inner) (path : List Int) :
    AvoidsEntries file.at? (number :: position :: path) ↔ AvoidsEntries inner.follow? path := by
  have noStart : file.at? [] = none := rfl
  rw [avoidsEntries_cons_iff rfl (fun rest => by rw [at?, found, Option.bind_some]), noStart]
  exact and_iff_right (by simp)

/-- Below some lists a walk visits all that a path leads to if it does so below what they hold. -/
theorem Lists.exists_site_iff {lists : Lists} (numbered : (lists.map (·.1)).Nodup)
    (each : ∀ entry ∈ lists.entries, ∀ scope path reached,
      (∃ site ∈ entry.2.sites scope path, site.path = reached ∧ site.declaration = target) ↔
        ∃ rest, reached = path ++ rest ∧ entry.2.follow? rest = some target ∧
          AvoidsEntries entry.2.follow? rest)
    (scope : String) (path reached : List Int) :
    (∃ site ∈ lists.sites scope path, site.path = reached ∧ site.declaration = target) ↔
      ∃ number position inner rest, reached = path ++ number :: position :: rest ∧
        lists.at? number position = some inner ∧ inner.follow? rest = some target ∧
        AvoidsEntries inner.follow? rest := by
  constructor
  · rintro ⟨site, inside, reaches⟩
    obtain ⟨number, position, inner, isEntry, visited⟩ := mem_sites_iff.mp inside
    obtain ⟨rest, rfl, followed, avoids⟩ := (each _ isEntry _ _ _).mp ⟨site, visited, reaches⟩
    exact ⟨number, position, inner, rest, by simp, (mem_entries_iff_at? numbered).mp isEntry,
      followed, avoids⟩
  · rintro ⟨number, position, inner, rest, rfl, found, followed, avoids⟩
    have isEntry := (mem_entries_iff_at? numbered).mpr found
    obtain ⟨site, visited, reaches⟩ :=
      (each _ isEntry scope (path ++ [number, position]) _).mpr ⟨rest, rfl, followed, avoids⟩
    refine ⟨site, mem_sites_iff.mpr ⟨number, position, inner, isEntry, visited⟩, ?_⟩
    simpa using reaches

/-- What a walk visits that comes to a declaration is all that a path leads to from there without
passing the entry of a map. -/
theorem Declaration.exists_site_iff (declaration target : Declaration) (scope : String)
    (path reached : List Int) :
    (∃ site ∈ declaration.sites scope path, site.path = reached ∧ site.declaration = target) ↔
      ∃ rest, reached = path ++ rest ∧ declaration.follow? rest = some target ∧
        AvoidsEntries declaration.follow? rest := by
  induction declaration using insideInduction generalizing scope path reached with
  | step declaration ih =>
    have inside := Lists.exists_site_iff declaration.nodup_lists ih
      (scopedName scope declaration.name) path reached
    cases kept : declaration.isMapEntry with
    | true =>
      rw [sites_of_isMapEntry kept]
      refine ⟨fun ⟨_, visited, _⟩ => absurd visited List.not_mem_nil, ?_⟩
      rintro ⟨rest, -, -, avoids⟩
      have start := avoids [] declaration List.nil_prefix rfl
      rw [kept] at start
      cases start
    | false =>
      rw [sites_of_kept kept]
      simp only [List.mem_cons, or_and_right, exists_or, exists_eq_left, inside]
      constructor
      · rintro (⟨rfl, rfl⟩ | ⟨number, position, inner, rest, rfl, found, followed, avoids⟩)
        · exact ⟨[], (List.append_nil _).symm, rfl, avoidsEntries_nil_iff.mpr kept⟩
        · refine ⟨number :: position :: rest, rfl, ?_,
            (avoidsEntries_iff_of_at? kept found rest).mpr avoids⟩
          rw [follow?, found, Option.bind_some, followed]
      · rintro ⟨rest, rfl, followed, avoids⟩
        match rest with
        | [] => exact .inl ⟨(List.append_nil _).symm, Option.some.inj followed⟩
        | [_] => cases followed
        | number :: position :: rest =>
          obtain ⟨inner, found, followed⟩ := Option.bind_eq_some_iff.mp followed
          exact .inr ⟨number, position, inner, rest, rfl, found, followed,
            (avoidsEntries_iff_of_at? kept found rest).mp avoids⟩

/-- A walk over a file visits what has a path that passes no entry of a map. -/
theorem File.exists_site_iff (file : File) (path : List Int) (target : Declaration) :
    (∃ site ∈ file.sites, site.path = path ∧ site.declaration = target) ↔
      file.at? path = some target ∧ AvoidsEntries file.at? path := by
  rw [sites, Lists.exists_site_iff file.nodup_lists fun entry _ => entry.2.exists_site_iff target]
  constructor
  · rintro ⟨number, position, inner, rest, rfl, found, followed, avoids⟩
    refine ⟨?_, (avoidsEntries_iff_of_at? found rest).mpr avoids⟩
    rw [List.nil_append, at?, found, Option.bind_some, followed]
  · rintro ⟨reached, avoids⟩
    match path with
    | [] | [_] => cases reached
    | number :: position :: rest =>
      obtain ⟨inner, found, followed⟩ := Option.bind_eq_some_iff.mp reached
      exact ⟨number, position, inner, rest, rfl, found, followed,
        (avoidsEntries_iff_of_at? found rest).mp avoids⟩

end Reaching

end HttpClientGen.Descriptor
