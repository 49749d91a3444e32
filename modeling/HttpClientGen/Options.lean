import HttpClientGen.Text

/-!
# Plug-in options

The options come as one parameter: a comma-separated list of `key=value` parts. White space around
parts, keys and values does not count, blank parts are skipped, a key without a value stands for
`true`, and a later part overrides an earlier one with the same key.
-/

namespace HttpClientGen

/-- How the generator is set up. -/
structure Options where
  verbose : Bool := false
  requestSuffix : String := "__Request"
  responseSuffix : String := "__Response"
  deriving DecidableEq, Repr, Inhabited

inductive OptionError
  | unknownKey (key : String)
  /-- A suffix without a value; the key is the one in the parameter, as it stands there. -/
  | emptySuffix (key : String)
  deriving DecidableEq, Repr

def OptionError.message : OptionError → String
  | unknownKey key => "Invalid plugin parameter: unknown option `" ++ key ++ "`"
  | emptySuffix key => "Invalid plugin parameter: `" ++ key ++ "` cannot be empty"

namespace Options

def suffix (key value : List Char) : Except OptionError String :=
  match Text.trim value with
  | [] => .error (.emptySuffix (String.ofList key))
  | trimmed => .ok (String.ofList trimmed)

/-- The options after one part of the parameter. -/
def set (options : Options) (part : List Char) : Except OptionError Options := do
  let (key, value) := (Text.cutFirst '=' part).getD (part, "true".toList)
  let name := String.ofList (Text.trim key)
  if name = "verbose" then
    return { options with verbose := Text.trim value == "true".toList }
  else if name = "requestTypeSuffix" then
    return { options with requestSuffix := ← suffix key value }
  else if name = "responseTypeSuffix" then
    return { options with responseSuffix := ← suffix key value }
  else
    .error (.unknownKey name)

/-- The parts of a parameter that are not blank, without the white space around them. -/
def parts (parameter : List Char) : List (List Char) :=
  ((Text.pieces ',' parameter).map Text.trim).filter (· ≠ [])

/-- Reads a parameter. Without one all options have their defaults. -/
def parse : Option String → Except OptionError Options
  | none => .ok {}
  | some parameter => (parts parameter.toList).foldlM set {}

/-- The parameter that stands for these options. -/
def render (options : Options) : String :=
  "verbose=" ++ (if options.verbose then "true" else "false") ++
    ",requestTypeSuffix=" ++ options.requestSuffix ++
    ",responseTypeSuffix=" ++ options.responseSuffix

end Options

end HttpClientGen
