import JvmTypes.Method.Token
import JvmTypes.Proofs.Chain
import JvmTypes.Proofs.Scope.Walk
/-!
# Searches for a type variable

A search goes from class to enclosing class for as long as none declares the variable, without
counting its steps. It ends if it finds the variable or the chain of classes ends, and then the
bounded search and the scopes have the same result.
-/
namespace JvmTypes.Store

def declaring (s : Store) (id : ClassId) : Option ClassId := (s.get id).declaring

def enclosing (s : Store) (id : ClassId) : Option ClassId := (s.get id).enclosing

/-- The search for `symbol` that begins at a class ends with this result. -/
inductive SearchEnds (s : Store) (symbol : String) :
    ClassId → Option (ClassId × TypeVarDecl) → Prop
  | declared {id : ClassId} {v : TypeVarDecl}
      (h : TypeVarDecl.find? symbol (s.get id).typeVariables = some v) :
      SearchEnds s symbol id (some (id, v))
  | outermost {id : ClassId} (h : TypeVarDecl.find? symbol (s.get id).typeVariables = none)
      (houter : s.enclosing id = none) : SearchEnds s symbol id none
  | outwards {id outer : ClassId} {r : Option (ClassId × TypeVarDecl)}
      (h : TypeVarDecl.find? symbol (s.get id).typeVariables = none)
      (houter : s.enclosing id = some outer) (hr : SearchEnds s symbol outer r) :
      SearchEnds s symbol id r

variable {s : Store} {symbol : String} {id : ClassId} {r : Option (ClassId × TypeVarDecl)}

theorem index_lt_of_declaring (h : (s.declaring id).isSome) : id.index < s.size := by
  by_contra hout
  rw [declaring, get_of_size_le (not_lt.mp hout)] at h
  cases h

theorem declaring_of_enclosing {outer : ClassId} (h : s.enclosing id = some outer) :
    s.declaring id = some outer := by
  rw [enclosing, ClassDecl.enclosing] at h
  split at h
  · cases h
  · exact h

theorem chainEnds_enclosing (h : ChainEnds s.declaring id) : ChainEnds s.enclosing id := by
  induction h using ChainEnds.induct with
  | step id _ ih =>
    cases houter : s.enclosing id with
    | none => exact .of_none houter
    | some outer => exact .of_some houter (ih outer (declaring_of_enclosing houter))

namespace SearchEnds

theorem findVariable?_eq (h : s.SearchEnds symbol id r) : s.findVariable? id symbol = r := by
  induction h with
  | declared h =>
    rw [Store.findVariable?_eq, h]
    rfl
  | outermost h houter =>
    rw [enclosing] at houter
    rw [Store.findVariable?_eq, h, houter]
    rfl
  | outwards h houter _ ih =>
    rw [enclosing] at houter
    rw [Store.findVariable?_eq, h, houter, Option.map_none, Option.none_or, Option.bind_some, ih]

theorem chainEnds (h : s.SearchEnds symbol id none) : ChainEnds s.enclosing id := by
  generalize hr : (none : Option (ClassId × TypeVarDecl)) = r at h
  induction h with
  | declared h => cases hr
  | outermost h houter => exact .of_none houter
  | outwards h houter _ ih => exact .of_some houter (ih hr)

theorem of_chainEnds (h : ChainEnds s.enclosing id) (symbol : String) :
    ∃ r, s.SearchEnds symbol id r := by
  induction h using ChainEnds.induct with
  | step id _ ih =>
    cases hown : TypeVarDecl.find? symbol (s.get id).typeVariables with
    | some v => exact ⟨_, .declared hown⟩
    | none =>
      cases houter : s.enclosing id with
      | none => exact ⟨none, .outermost hown houter⟩
      | some outer =>
        obtain ⟨r, hr⟩ := ih outer houter
        exact ⟨r, .outwards hown houter hr⟩

theorem of_findVariable? {r : ClassId × TypeVarDecl} (h : s.findVariable? id symbol = some r) :
    s.SearchEnds symbol id (some r) := by
  obtain ⟨n, hn⟩ := findVariable?_eq_some_iff.mp h
  clear h
  induction n generalizing id with
  | zero => cases hn
  | succ n ih =>
    rw [findVariableIn_succ] at hn
    rcases Option.or_eq_some_iff.mp hn with hn | ⟨hnone, hn⟩
    · obtain ⟨v, hv, rfl⟩ := Option.map_eq_some_iff.mp hn
      exact .declared hv
    · obtain ⟨outer, houter, hn⟩ := Option.bind_eq_some_iff.mp hn
      exact .outwards (Option.map_eq_none_iff.mp hnone) houter (ih hn)

end SearchEnds

theorem exists_searchEnds_iff :
    (∃ r, s.SearchEnds symbol id r) ↔
      (s.findVariable? id symbol).isSome ∨ ChainEnds s.enclosing id := by
  constructor
  · rintro ⟨r, h⟩
    cases r with
    | none => exact Or.inr h.chainEnds
    | some r => exact Or.inl (by rw [h.findVariable?_eq]; rfl)
  · rintro (h | h)
    · obtain ⟨r, hr⟩ := Option.isSome_iff_exists.mp h
      exact ⟨some r, .of_findVariable? hr⟩
    · exact SearchEnds.of_chainEnds h symbol

/-- The bounded search, the scope of the class and the scope of every token on its way to the class
see what the search ends with. -/
structure Sees (s : Store) (symbol : String) (id : ClassId) (r : Option (ClassId × TypeVarDecl)) :
    Prop where
  search : s.SearchEnds symbol id r
  found : s.findVariable? id symbol = r
  scope : Scope.ofClass s id symbol = r.map .ofFound
  token : ∀ t : MethodToken, TypeVarDecl.find? symbol t.typeVariables = none →
    t.scope s id symbol = r.map .ofFound

theorem SearchEnds.sees (h : s.SearchEnds symbol id r) : s.Sees symbol id r := by
  have hscope : Scope.ofClass s id symbol = r.map .ofFound := by
    rw [Scope.ofClass_eq, h.findVariable?_eq]
  refine ⟨h, h.findVariable?_eq, hscope, ?_⟩
  intro t hown
  rw [MethodToken.scope, Scope.orElse, hown, Option.map_none, Option.none_or, hscope]

end JvmTypes.Store
