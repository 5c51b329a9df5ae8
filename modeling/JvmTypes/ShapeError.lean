import JvmTypes.Constant
import JvmTypes.Shape
import JvmTypes.Text.Quoted
/-!
# Questions a shape cannot answer

A validation that comes out negative is `false`; an error means that the question does not apply.
-/
namespace JvmTypes

inductive Query where
  | supertype | interfaces | fields | methods
  deriving DecidableEq

def Query.text : Query → String
  | .supertype => "super_type"
  | .interfaces => "interfaces"
  | .fields => "declared_fields"
  | .methods => "declared_methods"

inductive ShapeError where
  | unsupported (query : Query) (kind : ShapeKind)
  | wildcardErasure
  | illegalBootstrapArgument (constant : Constant)
  | unresolvedVariable (symbol : String)
  deriving DecidableEq

def Constant.display : Constant → String
  | .byte v => "Byte(" ++ toString v.toInt ++ ")"
  | .char v => "Char(" ++ Text.quotedChar v ++ ")"
  | .short v => "Short(" ++ toString v.toInt ++ ")"
  | .boolean v => if v then "Boolean(true)" else "Boolean(false)"
  | c => c.kind

def ShapeError.message : ShapeError → String
  | .unsupported query kind => query.text ++ " is not defined for " ++ kind.text ++ " types"
  | .wildcardErasure => "a wildcard has no erasure; resolve one of its bounds first"
  | .illegalBootstrapArgument c =>
      "not a bootstrap argument: " ++ c.kind ++ " constant " ++ c.display
  | .unresolvedVariable symbol =>
    "cannot resolve type variable " ++ "`" ++ symbol ++ "` in the attachment context"

def Shape.erasure (t : Shape) : Except ShapeError Erased :=
  match t.erasure? with
  | some e => .ok e
  | none => .error .wildcardErasure

def Shape.erasures (ts : List Shape) : Except ShapeError (List Erased) := ts.mapM Shape.erasure

end JvmTypes
