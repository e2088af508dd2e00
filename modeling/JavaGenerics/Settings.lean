import JavaGenerics.LogFilter
import JavaGenerics.Resolution.Types
import JavaGenerics.Toml.Reading

/-!
# Settings

The settings are kept in a TOML file in two groups, one for resolution and one for
the log. Every key may be left out. A key that is not known is an error that names
the keys there are; the file is gone through in the order in which it is written,
and the first error counts.

A group is a table as a rule, but it may be written as an array too, which gives the
values without their keys (`JavaGenerics.Settings.groupEntries`).
-/

namespace JavaGenerics

/-- The settings of the library. -/
structure Settings where
  resolve : Options := {}
  logging : LogSettings := {}
deriving DecidableEq, Repr

/-- The reasons for which settings cannot be had. -/
inductive SettingsError where
  /-- There is no file, or it cannot be read. -/
  | noFile
  /-- The file is no TOML document, or a value is not of the type of its key. -/
  | malformed
  | unknownKey (key : String) (known : List String)
deriving DecidableEq, Repr

/-- A choice of keys in words. -/
def quotedChoice : List String → String
  | [a, b] => "`" ++ a ++ "` or `" ++ b ++ "`"
  | keys => "one of " ++ ", ".intercalate (keys.map fun key => "`" ++ key ++ "`")

/-- The message of an error, where the library has one to give. -/
def SettingsError.message? : SettingsError → Option String
  | unknownKey key known => some
      ("failed to parse toml config: unknown field `" ++ key ++ "`, expected "
        ++ quotedChoice known)
  | _ => none

namespace Settings

/-- The value of a key that is a boolean. -/
def boolean : Toml → Except SettingsError Bool
  | .boolean b => .ok b
  | _ => .error .malformed

/-- The value of a key that is a text. -/
def text : Toml → Except SettingsError String
  | .text s => .ok s
  | _ => .error .malformed

/-- The key under which a date or a time stands that is given in the place of a
group. No group has such a key. -/
def momentKey : String := "$__toml_private_datetime"

/-- The entries of a group that has the keys `keys`. An array gives the values of the
first keys, in order; what it has beyond the last key is passed over. A date or a time
is looked at as a table of one entry. -/
def groupEntries (keys : List String) : Toml → Except SettingsError Toml.Entries
  | .table _ entries => .ok entries
  | .array elems => .ok (keys.zip elems)
  | .tables elems => .ok (keys.zip (elems.map (.table .defined)))
  | .moment written => .ok [(momentKey, .moment written)]
  | _ => .error .malformed

/-- The keys of the options of resolution. -/
def optionKeys : List String :=
  ["verify_erased_descriptors", "resolve_referenced_classes", "warn_on_type_argument_arity"]

/-- The keys of the settings of the log. -/
def loggingKeys : List String := ["level", "json"]

/-- The keys of the two groups. -/
def groupKeys : List String := ["resolve", "logging"]

/-- Sets one option of resolution. -/
def setOption (options : Options) (entry : String × Toml) : Except SettingsError Options :=
  match entry.1 with
  | "verify_erased_descriptors" => do return { options with verifyErasure := ← boolean entry.2 }
  | "resolve_referenced_classes" => do
    return { options with resolveReferenced := ← boolean entry.2 }
  | "warn_on_type_argument_arity" => do return { options with warnArity := ← boolean entry.2 }
  | key => .error (.unknownKey key optionKeys)

/-- Sets one of the settings of the log. -/
def setLogging (logging : LogSettings) (entry : String × Toml) :
    Except SettingsError LogSettings :=
  match entry.1 with
  | "level" => do return { logging with level := ← text entry.2 }
  | "json" => do return { logging with json := ← boolean entry.2 }
  | key => .error (.unknownKey key loggingKeys)

/-- Sets one of the two groups of settings. -/
def setGroup (settings : Settings) (entry : String × Toml) : Except SettingsError Settings :=
  match entry.1 with
  | "resolve" => do
    let entries ← groupEntries optionKeys entry.2
    return { settings with resolve := ← entries.foldlM setOption {} }
  | "logging" => do
    let entries ← groupEntries loggingKeys entry.2
    return { settings with logging := ← entries.foldlM setLogging {} }
  | key => .error (.unknownKey key groupKeys)

/-- The settings that a text contains. -/
def parse (source : String) : Except SettingsError Settings :=
  match Toml.parse? source with
  | none => .error .malformed
  | some entries => entries.foldlM setGroup {}

/-- The settings in a file, of which `source` is the text if it could be read. -/
def load : (source : Option String) → Except SettingsError Settings
  | none => .error .noFile
  | some source => parse source

end Settings

end JavaGenerics
