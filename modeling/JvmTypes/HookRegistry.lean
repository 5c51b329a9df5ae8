/-!
# Hook registry

Hooks that wait for a type to be loaded. Delivering a key takes its hook out of the registry and
runs it, so that every registration runs at most once. A hook is a script, what it does when it is
run: it may register and deliver in turn, to any depth, go on after a delivery that failed, and fail
itself.

Calls come one after the other, so the registry needs no lock. A registration that replaces another
and a key that nothing waits for are events of its history; nothing else that is logged is kept.
-/
namespace JvmTypes

/-- A type, by name and the context that defines it. No context is a context of its own. -/
structure LoadedType where
  name : String
  context : Option Nat
  deriving DecidableEq

structure HookKey where
  type : LoadedType
  id : Int
  deriving DecidableEq

mutual

inductive Hook where
  /-- A hook fails with the text `failure` when its script is done. -/
  | mk (label : String) (script : List HookAction) (failure : Option String)

inductive HookAction where
  | register (key : HookKey) (hook : Hook)
  /-- A delivery that fails ends the script, which fails with its message. -/
  | deliver (key : HookKey)
  /-- A delivery, and what follows if it succeeds and if it fails. -/
  | attempt (key : HookKey) (success failure : List HookAction)
  /-- Ends the script. -/
  | fail (cause : String)

end

mutual

def Hook.count : Hook → Nat
  | .mk _ script _ => 1 + Hook.countScript script

def HookAction.count : HookAction → Nat
  | .register _ hook => hook.count
  | .deliver _ => 0
  | .attempt _ success failure => Hook.countScript success + Hook.countScript failure
  | .fail _ => 0

def Hook.countScript : List HookAction → Nat
  | [] => 0
  | action :: rest => action.count + Hook.countScript rest

end

namespace Hook

def label : Hook → String
  | mk label _ _ => label

def script : Hook → List HookAction
  | mk _ script _ => script

def failure : Hook → Option String
  | mk _ _ failure => failure

end Hook

inductive HookEvent where
  | registered (key : HookKey) (replaced : Bool)
  /-- A hook is started for a type. -/
  | started (key : HookKey) (label : String)
  /-- Nothing waits for the key. -/
  | absent (key : HookKey)
  deriving DecidableEq

/-- An operation on the waiting hooks, with what it found. -/
inductive HookOperation where
  | register (key : HookKey) (hook : Hook) (replaced : Bool)
  | deliver (key : HookKey) (started : Option Hook)

namespace HookOperation

def key : HookOperation → HookKey
  | register key _ _ => key
  | deliver key _ => key

def event : HookOperation → HookEvent
  | register key _ replaced => .registered key replaced
  | deliver key (some hook) => .started key hook.label
  | deliver key none => .absent key

end HookOperation

structure HookFailure where
  key : HookKey
  cause : String
  deriving DecidableEq

def HookFailure.message (f : HookFailure) : String :=
  "initializer " ++ toString f.key.id ++ " for " ++ "`" ++ f.key.type.name ++ "` failed: " ++
    f.cause

/-- Waiting hooks, one for a key, and what has happened so far. -/
structure HookRegistry where
  pending : List (HookKey × Hook) := []
  history : List HookEvent := []
  /-- The operations in the order in which they touch the waiting hooks. -/
  log : List HookOperation := []

namespace HookRegistry

def empty : HookRegistry := {}

def size (r : HookRegistry) : Nat := r.pending.length

def get? (r : HookRegistry) (key : HookKey) : Option Hook := (r.pending.find? (·.1 = key)).map (·.2)

def remove (r : HookRegistry) (key : HookKey) : HookRegistry :=
  { r with pending := r.pending.filter (·.1 ≠ key) }

def note (r : HookRegistry) (op : HookOperation) : HookRegistry :=
  { r with history := r.history ++ [op.event], log := r.log ++ [op] }

/-- A second registration under one key replaces the first. -/
def register (r : HookRegistry) (key : HookKey) (hook : Hook) : HookRegistry :=
  let r := r.note (.register key hook (r.get? key).isSome)
  { r with pending := (r.remove key).pending ++ [(key, hook)] }

/-- The hook that waits for a key, which from here on waits no longer. -/
def take (r : HookRegistry) (key : HookKey) : Option Hook × HookRegistry :=
  let hook := r.get? key
  (hook, (r.remove key).note (.deliver key hook))

mutual

def runAction (deliver : HookKey → HookRegistry → HookRegistry × Except HookFailure Unit) :
    HookAction → HookRegistry → HookRegistry × Except String Unit
  | .register key hook, r => (r.register key hook, .ok ())
  | .deliver key, r =>
    match deliver key r with
    | (r, .ok ()) => (r, .ok ())
    | (r, .error f) => (r, .error f.message)
  | .attempt key success failure, r =>
    match deliver key r with
    | (r, .ok ()) => runScript deliver success r
    | (r, .error _) => runScript deliver failure r
  | .fail cause, r => (r, .error cause)

def runScript (deliver : HookKey → HookRegistry → HookRegistry × Except HookFailure Unit) :
    List HookAction → HookRegistry → HookRegistry × Except String Unit
  | [], r => (r, .ok ())
  | action :: rest, r =>
    match runAction deliver action r with
    | (r, .ok ()) => runScript deliver rest r
    | (r, .error cause) => (r, .error cause)

end

def conclude (key : HookKey) (hook : Hook) :
    HookRegistry × Except String Unit → HookRegistry × Except HookFailure Unit
  | (r, .error cause) => (r, .error ⟨key, cause⟩)
  | (r, .ok ()) =>
    match hook.failure with
    | some cause => (r, .error ⟨key, cause⟩)
    | none => (r, .ok ())

/-- Delivers a key; `hooks` bounds the number of hooks that can be started one inside the other. -/
def deliverWithin : (hooks : Nat) → HookKey → HookRegistry → HookRegistry × Except HookFailure Unit
  | 0, _, r => (r, .ok ())
  | hooks + 1, key, r =>
    match r.take key with
    | (none, r) => (r, .ok ())
    | (some hook, r) => conclude key hook (runScript (deliverWithin hooks) hook.script r)

def potential (r : HookRegistry) : Nat := r.pending.foldr (fun p n => p.2.count + n) 0

/-- Takes the hook for a key out of the registry and runs it. Without one nothing happens. Every
hook that is started is taken out first, so no more are started than there are. -/
def deliver (r : HookRegistry) (key : HookKey) : HookRegistry × Except HookFailure Unit :=
  deliverWithin (r.potential + 1) key r

def run (script : List HookAction) (r : HookRegistry) : HookRegistry × Except String Unit :=
  runScript (fun key r => r.deliver key) script r

def display (r : HookRegistry) : String := "Nexus \x7b pending: " ++ toString r.size ++ " \x7d"

end HookRegistry

end JvmTypes
