import JvmTypes.Text.Alphanumeric
import JvmTypes.Text.Blank
/-!
# Log filters

A filter is a list of directives, each a level for one target or for all. Of two directives for one
target the later replaces the earlier. The configured text and the one of the environment are read
as one list where that is possible.
-/
namespace JvmTypes

inductive LogLevel where
  | off | error | warn | info | debug | trace
  deriving DecidableEq

namespace LogLevel

def all : List LogLevel := [off, error, warn, info, debug, trace]

def text : LogLevel → String
  | off => "off"
  | error => "error"
  | warn => "warn"
  | info => "info"
  | debug => "debug"
  | trace => "trace"

def verbosity (l : LogLevel) : Nat := all.idxOf l

def number? (cs : List Char) : Option Nat :=
  let digits := match cs with | '+' :: rest => rest | cs => cs
  if digits.isEmpty || !digits.all Char.isDigit then none
  else some (digits.foldl (fun n c => 10 * n + (c.toNat - 48)) 0)

def parse? (text : String) : Option LogLevel :=
  match number? text.toList with
  | some n => all[n]?
  | none => all.find? fun l => l.text = Text.lowerAscii text

end LogLevel

structure LogDirective where
  target : Option String
  level : LogLevel
  deriving DecidableEq

namespace LogDirective

def mayStart (c : Char) : Bool := Text.isAlphanumeric c || c ∈ ['-', ':', '_']

/-- A level, a target, or a target and a level around the first `=`. A target alone, or with nothing
behind the `=`, lets everything through. -/
def parse? (text : List Char) : Option LogDirective :=
  match text with
  | [] => none
  | c :: _ =>
    if !mayStart c then none
    else match text.dropWhile (· ≠ '=') with
      | [] =>
        match LogLevel.parse? (String.ofList text) with
        | some level => some ⟨none, level⟩
        | none => some ⟨some (String.ofList text), .trace⟩
      | _ :: level =>
        let target := some (String.ofList (text.takeWhile (· ≠ '=')))
        if level.isEmpty then some ⟨target, .trace⟩
        else (LogLevel.parse? (String.ofList level)).map fun level => ⟨target, level⟩

def text (d : LogDirective) : String :=
  match d.target with
  | some target => target ++ "=" ++ d.level.text
  | none => d.level.text

/-- `a` stands in front of `b`: longer targets first, of one length the later text, the one for all
targets last. -/
def before (a b : LogDirective) : Bool :=
  match a.target, b.target with
  | some t, some u => t.utf8ByteSize > u.utf8ByteSize || (t.utf8ByteSize = u.utf8ByteSize && u < t)
  | some _, none => true
  | none, _ => false

end LogDirective

structure LogFilter where
  directives : List LogDirective
  maxLevel : LogLevel
  deriving DecidableEq

namespace LogFilter

def empty : LogFilter := ⟨[], .off⟩

def insert (d : LogDirective) : List LogDirective → List LogDirective
  | [] => [d]
  | e :: es =>
    if e.target = d.target then d :: es
    else if d.before e then d :: e :: es
    else e :: insert d es

def add (f : LogFilter) (d : LogDirective) : LogFilter :=
  ⟨insert d f.directives, if f.maxLevel.verbosity < d.level.verbosity then d.level else f.maxLevel⟩

def ofDirectives (ds : List LogDirective) : LogFilter := ds.foldl add empty

def pieces (text : String) : List (List Char) :=
  (Text.splitCommas text.toList).filter (!·.isEmpty)

def directives? (text : String) : Option (List LogDirective) :=
  (pieces text).mapM LogDirective.parse?

/-- One directive that cannot be read makes the whole text unreadable. -/
def parse? (text : String) : Option LogFilter := (directives? text).map ofDirectives

def text (f : LogFilter) : String := ",".intercalate (f.directives.map LogDirective.text)

def fallback : LogFilter := ofDirectives [⟨none, .info⟩]

/-- A configured level in the form in which a filter is read: names of levels in small letters,
`warning` for `warn`, and `info` for a blank text. Anything else is a text of directives. -/
def normalize (level : String) : String :=
  let trimmed := Text.trim level
  if trimmed = "" then "info"
  else match Text.lowerAscii trimmed with
    | "trace" => "trace"
    | "debug" => "debug"
    | "info" => "info"
    | "warn" | "warning" => "warn"
    | "error" => "error"
    | _ => trimmed

section Settings

/- How a filter is read, and the filter in place of one that cannot be. -/
variable {φ : Type} (read : String → Option φ) (plain : φ)

def configured (level : String) : φ := (read (normalize level)).getD plain

/-- The filter of the configured level and of the environment, whose directives come later. If the
two cannot be read together, those of the environment count alone; if they cannot be read either,
the configured ones do. -/
def effective (level : String) (environment : Option String) : φ :=
  match (environment.map Text.trim).filter (· ≠ "") with
  | none => configured read plain level
  | some directives =>
    ((read (normalize level ++ "," ++ directives)).or (read directives)).getD
      (configured read plain level)

end Settings

def ofSettings (level : String) (environment : Option String) : LogFilter :=
  effective parse? fallback level environment

end LogFilter

end JvmTypes
