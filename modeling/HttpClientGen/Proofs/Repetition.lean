import HttpClientGen.Proofs.DocComment
import HttpClientGen.Proofs.Faults
import HttpClientGen.Proofs.Repeats
import HttpClientGen.Proofs.Trace

/-!
# Files that are asked for more than once

A repeated file adds no declaration to the output of its package: messages and enumerations are met
once, aliases are kept once, and a type name is claimed once. Its services are another matter. They
are written and checked as often as the file is asked for, so a run is the same without the later
repetitions only if the repeated files have no services, or if it fails for other reasons and the
methods in them have no faults.
-/

namespace HttpClientGen

/-- Mentions of well-known types, and of names that have been met. -/
def Dealt (met : List String) (seen : List TypeRef) : Prop :=
  ∀ ref ∈ seen, WellKnown.ofFullName? ref.fullName = none → ref.fullName ∈ met

theorem Dealt.again {met : List String} {seen : List TypeRef} (dealt : Dealt met seen)
    {ref : TypeRef} (old : WellKnown.ofFullName? ref.fullName = none → ref.fullName ∈ met) :
    Dealt met (ref :: seen) :=
  List.forall_mem_cons.mpr ⟨old, dealt⟩

theorem Dealt.cons {met : List String} {seen : List TypeRef} (dealt : Dealt met seen)
    (ref : TypeRef) : Dealt (ref.fullName :: met) (ref :: seen) := by
  have grown : Dealt (ref.fullName :: met) seen := fun other listed ordinary =>
    List.mem_cons_of_mem _ (dealt other listed ordinary)
  exact grown.again fun _ => List.mem_cons_self

theorem Dealt.not_mem {met : List String} {seen : List TypeRef} (dealt : Dealt met seen)
    {ref : TypeRef} (ordinary : WellKnown.ofFullName? ref.fullName = none)
    (new : ref.fullName ∉ met) : ref ∉ seen :=
  fun before => new (dealt ref before ordinary)

def wellKnownAmong (refs : List TypeRef) : List WellKnown :=
  refs.filterMap (WellKnown.ofFullName? ·.fullName)

theorem wellKnownAmong_cons {ref : TypeRef} (ordinary : WellKnown.ofFullName? ref.fullName = none)
    (refs : List TypeRef) : wellKnownAmong (ref :: refs) = wellKnownAmong refs :=
  List.filterMap_cons_none ordinary

/-- Contents have the declarations of others, and repeat their well-known types. -/
structure Contents.RepeatWellKnown (seen : List WellKnown) (longer shorter : Contents) : Prop where
  messages : longer.messages = shorter.messages
  enums : longer.enums = shorter.enums
  wellKnown : Repeats seen longer.wellKnown shorter.wellKnown

namespace Schema

/-- Mentions that have been dealt with lead to nothing new. Only the well-known types among them are
set aside again. -/
theorem contentsOf_of_repeats (schema : Schema) {met : List String}
    {seen longer shorter : List TypeRef} (repeats : Repeats seen longer shorter)
    (dealt : Dealt met seen) :
    (schema.contentsOf met longer).RepeatWellKnown (wellKnownAmong seen)
      (schema.contentsOf met shorter) := by
  fun_induction contentsOf schema met longer generalizing seen shorter with
  | case1 =>
    cases repeats
    rw [contentsOf]
    exact ⟨rfl, rfl, .nil⟩
  | case2 met ref rest type isKnown ih =>
    cases repeats with
    | @keep _ _ shorter _ later =>
      have among : wellKnownAmong (ref :: seen) = type :: wellKnownAmong seen :=
        List.filterMap_cons_some isKnown
      obtain ⟨messages, enums, wellKnown⟩ :=
        ih later (dealt.again fun ordinary => by cases isKnown.symm.trans ordinary)
      have step : schema.contentsOf met (ref :: shorter) =
          (schema.contentsOf met shorter).consWellKnown type := by
        rw [contentsOf, isKnown]
      rw [step]
      exact ⟨messages, enums, .keep (among ▸ wellKnown)⟩
    | drop before later =>
      obtain ⟨messages, enums, wellKnown⟩ := ih later dealt
      exact ⟨messages, enums, .drop (List.mem_filterMap.mpr ⟨ref, before, isKnown⟩) wellKnown⟩
  | case3 met ref rest ordinary old ih =>
    cases repeats with
    | keep later =>
      rw [contentsOf_of_met ordinary old, ← wellKnownAmong_cons ordinary]
      exact ih later (dealt.again fun _ => old)
    | drop before later => exact ih later dealt
  | case4 met rest fullName new others unknown ordinary =>
    rename_i _ ih
    obtain ⟨shorter, rfl, later⟩ := repeats.exists_eq_cons (dealt.not_mem ordinary new)
    have step : schema.contentsOf met (.enumeration fullName :: shorter) =
        schema.contentsOf (fullName :: met) shorter :=
      contentsOf_enumeration_of_absent ordinary new unknown
    rw [step, ← wellKnownAmong_cons ordinary]
    exact ih later (dealt.cons _)
  | case5 met rest fullName new others enumeration found ordinary =>
    rename_i _ ih
    obtain ⟨shorter, rfl, later⟩ := repeats.exists_eq_cons (dealt.not_mem ordinary new)
    have step : schema.contentsOf met (.enumeration fullName :: shorter) =
        (schema.contentsOf (fullName :: met) shorter).consEnum enumeration :=
      contentsOf_enumeration_of_found ordinary new found
    obtain ⟨messages, enums, wellKnown⟩ := ih later (dealt.cons _)
    rw [step]
    exact ⟨messages, congrArg (enumeration :: ·) enums,
      wellKnownAmong_cons ordinary seen ▸ wellKnown⟩
  | case6 met rest fullName new unknown ordinary _ ih =>
    obtain ⟨shorter, rfl, later⟩ := repeats.exists_eq_cons (dealt.not_mem ordinary new)
    have step : schema.contentsOf met (.message fullName :: shorter) =
        schema.contentsOf (fullName :: met) shorter :=
      contentsOf_message_of_absent ordinary new unknown
    rw [step, ← wellKnownAmong_cons ordinary]
    exact ih later (dealt.cons _)
  | case7 met rest fullName new message found ordinary _ ih =>
    obtain ⟨shorter, rfl, later⟩ := repeats.exists_eq_cons (dealt.not_mem ordinary new)
    have step : schema.contentsOf met (.message fullName :: shorter) =
        (schema.contentsOf (fullName :: met) (shorter ++ message.refs)).consMessage message :=
      contentsOf_message_of_found ordinary new found
    obtain ⟨messages, enums, wellKnown⟩ := ih (later.append (.refl _ message.refs)) (dealt.cons _)
    rw [step]
    exact ⟨congrArg (message :: ·) messages, enums, wellKnownAmong_cons ordinary seen ▸ wellKnown⟩

theorem contents_of_repeats (schema : Schema) {longer shorter : List SchemaFile}
    (repeats : Repeats [] longer shorter) : schema.contents longer = schema.contents shorter := by
  have queue := (repeats.flatMap SchemaFile.declaredRefs).append
    (repeats.flatMap SchemaFile.methodRefs)
  have dealt : Dealt [] [] := List.forall_mem_nil _
  obtain ⟨messages, enums, wellKnown⟩ : Contents.RepeatWellKnown [] _ _ :=
    schema.contentsOf_of_repeats queue dealt
  simp only [contents, messages, enums, (wellKnown.flatMap _).ascending_eq _]

end Schema

/-- Demands whose names have owners are not granted. -/
theorem Registry.grant_of_owned {registry : Registry} {unit : String} {demands : List Demand}
    (owned : ∀ demand ∈ demands, (registry.owner? unit demand.record.name).isSome) :
    registry.grant unit demands = ([], registry) := by
  induction demands with
  | nil => rfl
  | cons demand demands ih =>
    obtain ⟨here, later⟩ := List.forall_mem_cons.mp owned
    rcases registry.claim_cases unit demand.record.name demand.owner with
      ⟨old, same⟩ | ⟨-, free, -⟩
    · simp [grant, old, same, ih later]
    · rw [free] at here
      cases here

namespace Viewpoint

variable {view : Viewpoint} {session other : Session}

/-- An entry whose demands are met gives nothing and asks for nothing. -/
theorem synthesize_of_met (sound : session.memo.Sound view.schema) {usage : Usage}
    (met : view.Met session.options session.registry usage) :
    (view.synthesize session usage).1 = [] ∧
      session.Recalls view.schema (view.synthesize session usage).2 := by
  have given := write_gives sound usage
  have nothing := Registry.grant_of_owned met
  have records := given.records
  have pending := given.pending
  have registry := given.registry
  rw [nothing] at records pending registry
  rw [synthesize_of_idle pending]
  exact ⟨records, given.keeps, registry⟩

/-- Runs over the messages of a list write nothing for messages that are repeated. -/
theorem synthesizeAll_of_repeats {seen longer shorter : List Usage}
    (repeats : Repeats seen longer shorter)
    (alike : session.Alike view.schema view.schema view.package other)
    (met : ∀ usage ∈ seen, view.Met session.options session.registry usage) :
    (view.synthesizeAll session longer).1 = (view.synthesizeAll other shorter).1 := by
  induction repeats generalizing session other with
  | nil => rfl
  | @keep seen longer shorter usage _ ih =>
    obtain ⟨records, alikeAfter⟩ := writeAll_alike (.refl view) [usage] other alike
      fun _ _ => Set.mem_univ _
    obtain ⟨takes, -, registry, keeps⟩ := writeAll_takes alike.firstSound [usage]
    have metAfter : ∀ seenBefore ∈ usage :: seen, view.Met (view.synthesize session usage).2.options
        (view.synthesize session usage).2.registry seenBefore := by
      intro seenBefore listed demand demanded
      rw [synthesize, keeps.options] at demanded
      rw [synthesize, registry]
      rcases List.mem_cons.mp listed with rfl | before
      · exact takes.serves.queueMet _ List.mem_cons_self demand demanded
      · obtain ⟨owner, owned⟩ := Option.isSome_iff_exists.mp (met _ before demand demanded)
        rw [grants, Registry.owner?_grant_of_some owned]
        rfl
    rw [synthesizeAll, synthesizeAll]
    exact congrArg₂ (· ++ ·) records.symm (ih alikeAfter metAfter)
  | @drop seen longer shorter usage known _ ih =>
    obtain ⟨none, recalls⟩ := synthesize_of_met alike.firstSound (met usage known)
    have alikeAfter : (view.synthesize session usage).2.Alike view.schema view.schema view.package
        other :=
      ⟨alike.options.trans recalls.options.symm, fun name => by rw [recalls.registry, alike.owners],
        recalls.sound, alike.secondSound⟩
    have nothing : (view.synthesizeAll session (usage :: longer)).1 =
        (view.synthesizeAll (view.synthesize session usage).2 longer).1 := by
      simp only [synthesizeAll, none, List.nil_append]
    rw [nothing]
    refine ih alikeAfter fun seenBefore listed => ?_
    rw [recalls.options, recalls.registry]
    exact met seenBefore listed

/-- Repeated files give an output file nothing but their services once more. -/
theorem packageFile_of_repeats {longer shorter : List SchemaFile}
    (repeats : Repeats [] longer shorter) (sound : session.memo.Sound view.schema) :
    (view.packageFile session longer).1 =
      { (view.packageFile session shorter).1 with
        services := view.codesOf session.options longer } := by
  have contents := view.schema.contents_of_repeats repeats
  have declared : view.declaredUsages longer = view.declaredUsages shorter := by
    rw [declaredUsages, declaredUsages, contents]
  obtain ⟨-, -, -, keeps⟩ := synthesizeAll_takes sound (view.declaredUsages shorter)
  obtain ⟨codes, recalls⟩ := serviceCodes_spec keeps.sound (longer.flatMap (·.services))
  obtain ⟨codes', recalls'⟩ := serviceCodes_spec keeps.sound (shorter.flatMap (·.services))
  rw [keeps.options] at codes codes'
  have same : Session.Alike view.schema view.schema view.package _ _ :=
    ⟨rfl, fun _ => rfl, keeps.sound, keeps.sound⟩
  have alike := same.of_recalls recalls recalls'
  have usages : Repeats [] (view.methodUsages session.options longer)
      (view.methodUsages session.options shorter) := by
    have services := repeats.flatMap (·.services)
    have plans := services.flatMap fun service => (view.codeOf session.options service).plans
    simp only [methodUsages, plansOf, codesOf, List.flatMap_map]
    exact plans.flatMap planUsages
  have variants := synthesizeAll_of_repeats usages alike fun _ listed =>
    absurd listed List.not_mem_nil
  rw [methodUsages, codesOf, ← codes, methodUsages, codesOf, ← codes'] at variants
  rw [packageFile_eq, packageFile_eq]
  simp only [declared, contents]
  rw [variants, codes]
  rfl

end Viewpoint

section Text

def ServiceCode.text (code : ServiceCode) : List Char :=
  code.render.flatMap (·.render.toList)

theorem ServiceCode.text_ne_nil (code : ServiceCode) : code.text ≠ [] := by
  intro none
  have blank : Line.blank ∈ code.render := by simp [ServiceCode.render, ServiceInterface.render]
  have empty := List.flatMap_eq_nil_iff.mp none Line.blank blank
  revert empty
  decide

/-- Files that differ in their services only, and of which both or neither have one, have the same
text if the services have. -/
theorem PackageFile.render_eq_iff {file : PackageFile} {services : List ServiceCode}
    (some : services = [] ↔ file.services = []) :
    Document.render file.render = Document.render { file with services }.render ↔
      file.services.flatMap ServiceCode.text = services.flatMap ServiceCode.text := by
  have types : services.isEmpty = file.services.isEmpty := by
    rw [Bool.eq_iff_iff, List.isEmpty_iff, List.isEmpty_iff, some]
  rw [← String.toList_inj, Document.toList_render, Document.toList_render]
  simp only [PackageFile.render, types, List.flatMap_append, List.append_cancel_right_eq,
    List.append_cancel_left_eq, List.flatMap_assoc]
  rfl

end Text

namespace Schema

variable {schema : Schema} {requested : List String}

def ownFile (schema : Schema) (package name : String) : List SchemaFile :=
  ((schema.file? name).filter (·.package = package)).toList

theorem filter_filterMap_file? (schema : Schema) (requested : List String) (package : String) :
    (requested.filterMap schema.file?).filter (·.package = package) =
      requested.flatMap (schema.ownFile package) := by
  induction requested with
  | nil => rfl
  | cons name names ih =>
    rw [List.flatMap_cons, ← ih, ownFile]
    cases found : schema.file? name with
    | none => rw [List.filterMap_cons_none found]; rfl
    | some file =>
      rw [List.filterMap_cons_some found, List.filter_cons, Option.filter_some]
      split <;> rfl

theorem packagesOf_eraseDups (schema : Schema) (requested : List String) :
    packagesOf (requested.eraseDups.filterMap schema.file?) =
      packagesOf (requested.filterMap schema.file?) := by
  refine ascending_id_congr fun package => ?_
  simp only [List.mem_map, List.mem_filterMap, List.mem_eraseDups]

/-- A run over the files without repetitions gives a package the same output file up to the
services. -/
theorem separateRun_eraseDups (schema : Schema) (requested : List String) (options : Options)
    (package : String) :
    (schema.separateRun (requested.filterMap schema.file?) options package).1 =
      { (schema.separateRun (requested.eraseDups.filterMap schema.file?) options package).1 with
        services := (Viewpoint.mk schema package).codesOf options
          (requested.flatMap (schema.ownFile package)) } := by
  have files : Repeats [] (requested.flatMap (schema.ownFile package))
      (requested.eraseDups.flatMap (schema.ownFile package)) :=
    (repeats_eraseDups requested).flatMap _
  rw [separateRun, separateRun, filter_filterMap_file?, filter_filterMap_file?]
  exact Viewpoint.packageFile_of_repeats files Memo.sound_empty

theorem ownFile_of_found {name : String} {file : SchemaFile}
    (found : schema.file? name = some file) (package : String) :
    schema.ownFile package name = if file.package = package then [file] else [] := by
  rw [ownFile, found, Option.filter_some]
  split <;> simp_all

/-- What holds of the files of a package, for all packages, holds of every file. -/
theorem forall_ownFile_iff {P : List SchemaFile → Prop} (none : P []) :
    (∀ package ∈ packagesOf (requested.filterMap schema.file?), ∀ name,
        1 < requested.count name → P (schema.ownFile package name)) ↔
      ∀ name file, 1 < requested.count name → schema.file? name = some file → P [file] := by
  constructor
  · intro each name file often found
    have listed : name ∈ requested := List.count_pos_iff.mp (Nat.zero_lt_of_lt often)
    have inPackages : file.package ∈ packagesOf (requested.filterMap schema.file?) :=
      mem_packagesOf_iff.mpr ⟨file, List.mem_filterMap.mpr ⟨name, listed, found⟩, rfl⟩
    have own := each file.package inPackages name often
    rwa [ownFile_of_found found, if_pos rfl] at own
  · intro each package _ name often
    cases found : schema.file? name with
    | none => rwa [ownFile, found]
    | some file =>
      rw [ownFile_of_found found]
      split
      · exact each name file often found
      · exact none

/-- The faults that a run finds, package by package. -/
def faultsFor (schema : Schema) (requested : List String) : List GenerationError :=
  (packagesOf (requested.filterMap schema.file?)).flatMap fun package =>
    schema.faultsOf ((requested.filterMap schema.file?).filter (·.package = package))

theorem faultsFor_eq_nil_iff :
    schema.faultsFor requested = [] ↔ schema.faultsOf (requested.filterMap schema.file?) = [] := by
  simp only [faultsFor, faultsOf_eq_methodFaults]
  exact packageFaults_eq_nil_iff

theorem faultsFor_eraseDups_eq_iff :
    schema.faultsFor requested.eraseDups = schema.faultsFor requested ↔
      ∀ name file, 1 < requested.count name → schema.file? name = some file →
        schema.faultsOf [file] = [] := by
  have split (names : List String) (package : String) :
      schema.faultsOf (names.flatMap (schema.ownFile package)) =
        names.flatMap fun name => schema.faultsOf (schema.ownFile package name) := by
    simp only [faultsOf, List.flatMap_assoc]
  simp only [faultsFor, packagesOf_eraseDups, filter_filterMap_file?, split]
  rw [flatMap_flatMap_eraseDups_eq_iff]
  exact forall_ownFile_iff (P := fun files => schema.faultsOf files = []) rfl

/-- The text of a package without the repetitions is the same if nothing is repeated that has
services. -/
theorem render_separateRun_eraseDups_iff (options : Options) (package : String) :
    Document.render (schema.separateRun (requested.eraseDups.filterMap schema.file?) options
        package).1.render =
      Document.render (schema.separateRun (requested.filterMap schema.file?) options
        package).1.render ↔
      ∀ name, 1 < requested.count name →
        (schema.ownFile package name).flatMap (·.services) = [] := by
  let view : Viewpoint := ⟨schema, package⟩
  have sound : Memo.Sound ({ options } : Session).memo view.schema := Memo.sound_empty
  have services (names : List String) : (view.codesOf options
      (names.flatMap (schema.ownFile package))).flatMap ServiceCode.text =
        names.flatMap fun name => ((schema.ownFile package name).flatMap (·.services)).flatMap
          fun service => (view.codeOf options service).text := by
    simp only [Viewpoint.codesOf, List.flatMap_map, List.flatMap_assoc]
  have codes : (schema.separateRun (requested.eraseDups.filterMap schema.file?) options
      package).1.services =
        view.codesOf options (requested.eraseDups.flatMap (schema.ownFile package)) := by
    rw [separateRun, filter_filterMap_file?]
    exact Viewpoint.services_packageFile sound _
  have some : view.codesOf options (requested.flatMap (schema.ownFile package)) = [] ↔
      view.codesOf options (requested.eraseDups.flatMap (schema.ownFile package)) = [] := by
    simp only [Viewpoint.codesOf, List.map_eq_nil_iff, List.flatMap_eq_nil_iff, List.mem_flatMap,
      List.mem_eraseDups]
  rw [separateRun_eraseDups schema requested, PackageFile.render_eq_iff (by rw [codes]; exact some),
    codes, services, services, flatMap_eraseDups_eq_iff]
  refine forall₂_congr fun name _ => ?_
  constructor
  · intro silent
    by_contra some
    obtain ⟨service, listed⟩ := List.exists_mem_of_ne_nil _ some
    exact ServiceCode.text_ne_nil _ (List.flatMap_eq_nil_iff.mp silent service listed)
  · intro none
    rw [none]
    rfl

theorem generate_eraseDups_iff_of_present (options : Options)
    (present : ∀ name ∈ requested, (schema.file? name).isSome) :
    schema.generate requested.eraseDups options = schema.generate requested options ↔
      ∀ name file, 1 < requested.count name → schema.file? name = some file →
        schema.faultsOf [file] = [] ∧
          (schema.faultsOf (requested.filterMap schema.file?) = [] → file.services = []) := by
  have alsoPresent : ∀ name ∈ requested.eraseDups, (schema.file? name).isSome :=
    fun name listed => present name (List.mem_eraseDups.mp listed)
  have faults (names : List String) : ((packagesOf (names.filterMap schema.file?)).flatMap
      fun package => (schema.separateRun (names.filterMap schema.file?) options package).2.errors) =
        schema.faultsFor names := by
    simp only [errors_separateRun]
    rfl
  have sameFaultless :
      schema.faultsFor requested.eraseDups = [] ↔ schema.faultsFor requested = [] := by
    simp only [faultsFor_eq_nil_iff, faultsOf, List.flatMap_eq_nil_iff, List.mem_flatMap,
      List.mem_filterMap, List.mem_eraseDups]
  rw [generate_of_present options present, generate_of_present options alsoPresent]
  simp only [faults]
  by_cases faultless : schema.faultsFor requested = []
  · have alone : schema.faultsOf (requested.filterMap schema.file?) = [] :=
      faultsFor_eq_nil_iff.mp faultless
    rw [if_pos faultless, if_pos (sameFaultless.mpr faultless), Except.ok.injEq,
      packagesOf_eraseDups, List.map_inj_left]
    simp only [GeneratedFile.mk.injEq, true_and, render_separateRun_eraseDups_iff]
    rw [forall_ownFile_iff (P := fun files => files.flatMap (·.services) = []) rfl]
    refine forall₄_congr fun name file _ _ => ?_
    rw [List.flatMap_singleton]
    constructor
    · intro none
      exact ⟨by rw [faultsOf, List.flatMap_singleton, none]; rfl, fun _ => none⟩
    · exact fun silent => silent.2 alone
  · have notAlone : schema.faultsOf (requested.filterMap schema.file?) ≠ [] :=
      fun none => faultless (faultsFor_eq_nil_iff.mpr none)
    rw [if_neg faultless, if_neg (mt sameFaultless.mp faultless), Except.error.injEq,
      RunError.faults.injEq, faultsFor_eraseDups_eq_iff]
    simp only [notAlone, false_implies, and_true]

/-- The first missing file is the same with and without repetitions. -/
theorem generate_eraseDups_of_missing (options : Options) {name : String}
    (listed : name ∈ requested) (missing : schema.file? name = none) :
    schema.generate requested.eraseDups options = schema.generate requested options := by
  have first : (requested.find? fun name => (schema.file? name).isNone).isSome :=
    List.find?_isSome.mpr ⟨name, listed, by simp [missing]⟩
  obtain ⟨reported, found⟩ := Option.isSome_iff_exists.mp first
  have alsoFound := found
  rw [(repeats_eraseDups requested).find?_eq (List.forall_mem_nil _)] at alsoFound
  rw [generate, generate, outputs, outputs, requestedFiles_of_find? found,
    requestedFiles_of_find? alsoFound]

/-- Without the later repetitions in the request, a run does the same if a file is missing, and
otherwise exactly if no repeated file brings a fault, nor, in a run without faults, a service. -/
theorem generate_eraseDups_iff (schema : Schema) (requested : List String) (options : Options) :
    schema.generate requested.eraseDups options = schema.generate requested options ↔
      (∃ name ∈ requested, schema.file? name = none) ∨
        ∀ name file, 1 < requested.count name → schema.file? name = some file →
          schema.faultsOf [file] = [] ∧
            (schema.faultsOf (requested.filterMap schema.file?) = [] → file.services = []) := by
  by_cases missing : ∃ name ∈ requested, schema.file? name = none
  · obtain ⟨name, listed, missing⟩ := missing
    exact iff_of_true (generate_eraseDups_of_missing options listed missing)
      (.inl ⟨name, listed, missing⟩)
  · have present : ∀ name ∈ requested, (schema.file? name).isSome := by
      intro name listed
      rw [Option.isSome_iff_ne_none]
      exact fun none => missing ⟨name, listed, none⟩
    rw [generate_eraseDups_iff_of_present options present, or_iff_right missing]

/-- A file with one service, which has one method. -/
def pingFile : SchemaFile where
  name := "ping.proto"
  package := "ping"
  messages := [{ declared := ⟨"ping", "Ping"⟩ }]
  services := [
    { declared := ⟨"ping", "Pings"⟩
      methods := [
        { name := "Send", input := "ping.Ping", output := "ping.Ping"
          binding := some ⟨"get", "/v1/ping", ""⟩ }] }]

/-- The client of the service is declared as often as the file is asked for. -/
theorem not_generate_eraseDups :
    ¬∀ (schema : Schema) (requested : List String) (options : Options),
      schema.generate requested.eraseDups options = schema.generate requested options := by
  intro always
  have present : ∀ name ∈ ["ping.proto", "ping.proto"],
      ((ofFiles [pingFile]).file? name).isSome := by decide
  obtain ⟨-, none⟩ := (generate_eraseDups_iff_of_present {} present).mp (always _ _ _)
    "ping.proto" pingFile (by decide) rfl
  have faultless : (ofFiles [pingFile]).faultsOf [pingFile, pingFile] = [] := rfl
  cases none faultless

end Schema

end HttpClientGen
