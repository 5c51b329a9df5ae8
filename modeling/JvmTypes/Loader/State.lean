import JvmTypes.Loader.Error
import JvmTypes.Store
import JvmTypes.Stub
/-!
# The state of a loader

What loading has done to the store stays, also when it fails in the end. Of what a loader logs only
the dropped signatures are kept.
-/
namespace JvmTypes.Loader

abbrev Source := String → Option ClassStub

structure Config where
  /-- A signature that cannot be used is a failure; otherwise the descriptor is used in its
  place. -/
  strict : Bool := false
  /-- References from classes nested deeper than this stay placeholders. -/
  maxDepth : Nat := 64
  deriving DecidableEq

structure State where
  store : Store
  /-- Names of the classes whose definition has begun and not ended, innermost first. -/
  inProgress : List String := []
  /-- Names of the classes that this loader has defined, latest first. -/
  loaded : List String := []
  /-- Declarations whose signature was given up, in order. -/
  dropped : List (String × SignatureFault) := []

abbrev Load (ε α : Type) := ExceptT ε (StateM State) α

abbrev Resolver := String → Load LoadError ClassId

/-- The place of a name, without loading it. -/
def intern (name : String) : Load ε ClassId := fun st =>
  let (id, store) := st.store.intern name
  (.ok id, { st with store := store })

def getStore : Load ε Store := fun st => (.ok st.store, st)

def define (id : ClassId) (decl : ClassDecl) : Load ε Unit := fun st =>
  (.ok (), { st with store := st.store.define id decl })

def remember (name : String) : Load ε Unit := fun st =>
  (.ok (), { st with loaded := name :: st.loaded })

/-- Marks `name` as in progress while `action` runs, however that ends. -/
def progressing (name : String) (action : Load ε α) : Load ε α := fun st =>
  let (result, st) := action { st with inProgress := name :: st.inProgress }
  (result, { st with inProgress := st.inProgress.erase name })

/-- Runs the conversion of a signature. A fault is a failure for a strict loader; a lenient one
notes it and goes on without the signature. -/
def settle (config : Config) (owner : String) (conversion : Load SignatureFault α) :
    Load LoadError (Option α) :=
  fun st =>
    match conversion st with
    | (.ok a, st) => (.ok (some a), st)
    | (.error fault, st) =>
      if config.strict then (.error (.malformedSignature owner fault), st)
      else (.ok none, { st with dropped := st.dropped ++ [(owner, fault)] })

/-- A reference inside a signature: a failure to load is a fault of the signature. -/
def referenced (resolve : Resolver) (name : String) : Load SignatureFault ClassId := fun st =>
  match resolve name st with
  | (.ok id, st) => (.ok id, st)
  | (.error error, st) => (.error (.reference error), st)

end JvmTypes.Loader
