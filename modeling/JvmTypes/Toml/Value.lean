/-!
# Values of a settings document

What a TOML document says. Floats and dates are told apart from other values but not evaluated,
since no setting is one of them.
-/
namespace JvmTypes.Toml

inductive Value where
  | string (text : String)
  | integer (value : Int)
  | float
  | boolean (value : Bool)
  | datetime
  | array (elements : List Value)
  | table (entries : List (String × Value))

def lookup? (key : String) (entries : List (String × α)) : Option α :=
  (entries.find? (·.1 = key)).map (·.2)

/-- Sets a key: in its place if it is there, at the end otherwise. -/
def put (key : String) (value : α) : List (String × α) → List (String × α)
  | [] => [(key, value)]
  | (k, v) :: rest => if k = key then (key, value) :: rest else (k, v) :: put key value rest

end JvmTypes.Toml
