import JvmTypes.Loader.State
import JvmTypes.Toml.Reader
/-!
# Settings

The settings of the loader and of logging, from a document. What a document leaves out keeps its
default, and keys that are no settings are ignored.
-/
namespace JvmTypes

structure LoggingSettings where
  /-- A level or a text of directives. -/
  level : String := "info"
  json : Bool := false
  stderr : Bool := true
  deriving DecidableEq

structure Settings where
  logging : LoggingSettings := {}
  loader : Loader.Config := {}
  deriving DecidableEq

inductive SettingsError where
  | unreadableFile (path : String)
  | malformed
  deriving DecidableEq

namespace Settings

open Toml

inductive Fields where
  | byName (entries : List (String × Value))
  | byPlace (elements : List Value)

namespace Fields

/-- A date says nothing about the fields. -/
def ofValue? : Value → Option Fields
  | .table entries => some (byName entries)
  | .array elements => some (byPlace elements)
  | .datetime => some (byName [])
  | _ => none

def get? (place : Nat) (name : String) : Fields → Option Value
  | byName entries => lookup? name entries
  | byPlace elements => elements[place]?

/-- A field that is absent keeps its default; one of the wrong kind makes the document malformed. -/
def read (fields : Fields) (place : Nat) (name : String) (convert : Value → Option α)
    (default : α) : Option α :=
  match fields.get? place name with
  | none => some default
  | some v => convert v

end Fields

def string? : Value → Option String
  | .string s => some s
  | _ => none

def boolean? : Value → Option Bool
  | .boolean b => some b
  | _ => none

def natural? : Value → Option Nat
  | .integer n => if 0 ≤ n then some n.toNat else none
  | _ => none

def logging? (v : Value) : Option LoggingSettings := do
  let fields ← Fields.ofValue? v
  let default : LoggingSettings := {}
  let level ← fields.read 0 "level" string? default.level
  let json ← fields.read 1 "json" boolean? default.json
  let stderr ← fields.read 2 "stderr" boolean? default.stderr
  some ⟨level, json, stderr⟩

def loader? (v : Value) : Option Loader.Config := do
  let fields ← Fields.ofValue? v
  let default : Loader.Config := {}
  let strict ← fields.read 0 "strict_signatures" boolean? default.strict
  let maxDepth ← fields.read 1 "max_depth" natural? default.maxDepth
  some ⟨strict, maxDepth⟩

def ofEntries? (entries : List (String × Value)) : Option Settings := do
  let fields := Fields.byName entries
  let logging ← fields.read 0 "logging" logging? {}
  let loader ← fields.read 1 "loader" loader? {}
  some ⟨logging, loader⟩

def parse (text : String) : Except SettingsError Settings :=
  match (parse? text).bind ofEntries? with
  | some settings => .ok settings
  | none => .error .malformed

def ofFile (path : String) (contents : Option String) : Except SettingsError Settings :=
  match contents with
  | some text => parse text
  | none => .error (.unreadableFile path)

end Settings

end JvmTypes
