import JvmTypes.Descriptor
import JvmTypes.Signature.Reader
/-!
# Why a class is not loaded

Failures of loading, and the faults for which a signature is given up. A class named in a signature
may itself fail to load, so the two contain each other.
-/
namespace JvmTypes

mutual

inductive LoadError where
  | notFound (name : String)
  | malformedSignature (owner : String) (fault : SignatureFault)
  | malformedDescriptor (owner : String) (descriptor : Descriptor.Invalid)

inductive SignatureFault where
  | unreadable (error : Signature.Invalid)
  | parameterCount
  | undeclaredVariable (name : String)
  | cyclicBound (name : String)
  | nonClassBound (name : String)
  | reference (error : LoadError)

end

mutual

def LoadError.message : LoadError → String
  | .notFound name => "type " ++ "`" ++ name ++ "` not found"
  | .malformedSignature owner fault =>
      "malformed signature on " ++ "`" ++ owner ++ "`: " ++ fault.reason
  | .malformedDescriptor owner descriptor =>
    "malformed descriptor on " ++ "`" ++ owner ++ "`: " ++ descriptor.message

def SignatureFault.reason : SignatureFault → String
  | .unreadable error => error.message
  | .parameterCount => "parameter count differs from the descriptor"
  | .undeclaredVariable name => "type variable " ++ "`" ++ name ++ "` is not declared in scope"
  | .cyclicBound name => "cyclic bound on type variable " ++ "`" ++ name ++ "`"
  | .nonClassBound name => "type variable " ++ "`" ++ name ++ "` has a non-class bound"
  | .reference error => error.message

end

end JvmTypes
