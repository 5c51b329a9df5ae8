import JvmTypes.Proofs.Loader.Coherence
import JvmTypes.Proofs.Loader.Provenance
/-!
# The scope of a finished declaration

The type variables that the members of a class see can be read off the finished declarations: where
they are declared, and their erasures by the chains of first bounds. They are those that the loader
saw while it converted the signatures.
-/
namespace JvmTypes

namespace TypeVarDecl

/-- Erasure of the variable at a place of the list, by its chain of first bounds. A symbol that the
list declares more than once stands for its first declaration. -/
def erasureAt (vars : List TypeVarDecl) : Nat → Nat → Erased
  | 0, _ => .object
  | steps + 1, place =>
    match vars[place]?.bind (·.bounds.head?) with
    | some (.variable v) =>
      match vars.findIdx? (·.symbol = v.symbol) with
      | some next => erasureAt vars steps next
      | none => v.erasure
    | some bound => bound.erasure?.getD .object
    | none => .object

def erasures (vars : List TypeVarDecl) : Loader.Erasures :=
  (List.range vars.length).zip vars |>.map fun (place, v) =>
    (v.symbol, erasureAt vars (vars.length + 2) place)

end TypeVarDecl

namespace Loader

open Signature

def surroundings (s : Store) (id : ClassId) : Surroundings where
  declaring := id
  enclosing := (s.get id).enclosing
  classVariables := TypeVarDecl.erasures (s.get id).typeVariables

def Surroundings.inMethod (sur : Surroundings) (m : MethodDecl) : Surroundings :=
  { sur with methodVariables := TypeVarDecl.erasures m.typeVariables }

namespace Script

variable {A : Answers} {sur sur' : Surroundings} {params : List TypeParameter}
  {vars : List TypeVarDecl} {source : VariableSource} {es : Erasures}

theorem findIdx?_of_map_eq {f : α → String} {g : β → String} {xs : List α} {ys : List β}
    (h : xs.map f = ys.map g) (x : String) :
    xs.findIdx? (f · = x) = ys.findIdx? (g · = x) := by
  have hxs : xs.findIdx? (f · = x) = (xs.map f).findIdx? (· = x) := by
    rw [List.findIdx?_map]; rfl
  have hys : ys.findIdx? (g · = x) = (ys.map g).findIdx? (· = x) := by
    rw [List.findIdx?_map]; rfl
  rw [hxs, hys, h]

theorem erasureAt_of_ends (hA : A.Definite) (hext : Extends sur sur' source es)
    (hkeys : es.map (·.1) = params.map (·.name))
    (hvars : List.Forall₂ (fun p d => (typeVariable sur' p).Ends A (some d)) params vars)
    {steps place : Nat} {visited : List Nat} {e : Erased}
    (h : (parameterErasure sur params steps visited place).Ends A (some e)) :
    TypeVarDecl.erasureAt vars steps place = e := by
  have hsymbols := symbols_of_parameters hvars
  obtain ⟨hlen, hget⟩ := List.forall₂_iff_get.mp hvars
  induction steps generalizing place visited with
  | zero => exact (Option.some.inj (ends_pure.mp h)).symm
  | succ steps ih =>
    rw [parameterErasure] at h
    rw [TypeVarDecl.erasureAt]
    by_cases hplace : place < params.length
    · have hdecl := hget place hplace (hlen ▸ hplace)
      rw [List.get_eq_getElem, List.get_eq_getElem] at hdecl
      rw [List.getElem?_eq_getElem (hlen ▸ hplace), Option.bind_some]
      simp only [List.getElem?_eq_getElem hplace] at h
      rcases hb : params[place].bounds.head? with _ | ⟨b | c | name | c⟩
      · rw [head?_of_unbounded hdecl hb]
        rw [hb] at h
        exact (Option.some.inj (ends_pure.mp h)).symm
      · simp [hb] at h
      · obtain ⟨u, id', hid', hhead, hcore, herasure, _⟩ := ends_firstClass hdecl hb
        simp only [hb] at h
        obtain ⟨id, hid, he⟩ := ends_bind_some.mp h
        obtain rfl := Option.some.inj he
        rw [hhead, hA.cls _ _ _ (ends_classNamed hid) (ends_classNamed hid')]
        cases u with
        | «variable» v => simp [Shape.core?] at hcore
        | plain | array | applied | upper | lower => simp [herasure]
      · obtain ⟨v, hv, hhead, _⟩ := ends_firstVariable hdecl hb
        rw [hhead]
        simp only [hb] at h
        simp only [findIdx?_of_map_eq hsymbols, symbol_of_variableNamed hA hv]
        cases hn : params.findIdx? (·.name = name) with
        | some next =>
          simp only [hn] at h
          split at h
          case isTrue => simp at h
          case isFalse => exact ih h
        | none =>
          simp only [hn] at h
          obtain ⟨w, hw, he⟩ := ends_bind_some.mp h
          obtain rfl := Option.some.inj he
          rw [hext.outside name (Erasures.get?_of_findIdx?_eq_none hkeys hn)] at hv
          rw [variableNamed_unique hA hv hw]
      · simp [hb] at h
    · rw [List.getElem?_eq_none (by omega)] at h ⊢
      exact (Option.some.inj (ends_pure.mp h)).symm

theorem erasures_of_ends (hA : A.Definite) (hext : Extends sur sur' source es)
    (hes : (parameterErasures sur params).Ends A (some es))
    (hvars : List.Forall₂ (fun p d => (typeVariable sur' p).Ends A (some d)) params vars) :
    es = TypeVarDecl.erasures vars := by
  have hsymbols := symbols_of_parameters hvars
  obtain ⟨hkeys, _⟩ := ends_parameterErasures hes
  obtain ⟨hlen, hget⟩ := List.forall₂_iff_get.mp (ends_mapM_some.mp hes)
  have hlenv : vars.length = params.length := by simpa using congrArg List.length hsymbols
  have hlene : es.length = params.length := by simpa using congrArg List.length hkeys
  apply List.ext_getElem (by simp [TypeVarDecl.erasures, hlene, hlenv])
  intro i hi hi'
  have hend := hget i (by simpa [hlene] using hi) hi
  simp only [List.get_eq_getElem, List.getElem_zip, List.getElem_range, ends_bind_some] at hend
  obtain ⟨e, he, heq⟩ := hend
  have hname : vars[i].symbol = params[i].name := by
    have := List.getElem_of_eq hsymbols (i := i) (by simpa [hlenv, ← hlene] using hi)
    simpa using this
  rw [← erasureAt_of_ends hA hext hkeys hvars he] at heq
  rw [Option.some.inj heq]
  simp [TypeVarDecl.erasures, hname, hlenv]

theorem surroundings_of_header (hA : A.Definite) {id : ClassId} {enclosing : Option ClassId}
    {stub : ClassStub} {hd : Header}
    (h : (header { declaring := id, enclosing := enclosing } stub).Ends A (some hd)) :
    hd.surroundings =
      { declaring := id, enclosing := enclosing,
        classVariables := TypeVarDecl.erasures hd.typeVariables } := by
  rcases ends_header h with ⟨_, sig, _, _, h⟩ | h
  · obtain ⟨es, hes, hsur, hvars, _⟩ := ends_headerOf h
    rw [hsur] at hvars
    rw [hsur, ← erasures_of_ends hA (extends_class rfl rfl) hes hvars]
  · obtain ⟨hsur, hnil, _⟩ := ends_plainHeader h
    rw [hsur, hnil]
    rfl

end Script

namespace DeclaredFrom

variable {s : Store} {stub : ClassStub} {id : ClassId} (h : DeclaredFrom s stub id)
include h

theorem header : ∃ hd, (Script.header { declaring := id, enclosing := (s.get id).enclosing }
      stub).Ends (possibly s (s.get id).enclosing) (some hd) ∧
    (s.get id).typeVariables = hd.typeVariables ∧ (s.get id).superclass = hd.superclass ∧
    (s.get id).interfaces = hd.interfaces ∧ (s.get id).flags = stub.flags := by
  obtain ⟨declaring, _, hbody⟩ := Script.ends_classDecl h.ends
  obtain ⟨hd, hhd, _, _, _, hflags, hdecl, _, _, hvars, hsuper, hinterfaces⟩ :=
    Script.ends_classBody hbody
  refine ⟨hd, ?_, hvars, hsuper, hinterfaces, hflags⟩
  rw [ClassDecl.enclosing, hflags, hdecl] at hhd ⊢
  exact hhd

theorem members : List.Forall₂ (fun f d => (Script.fieldDecl (surroundings s id) stub.name f).Ends
      (possibly s (s.get id).enclosing) (some d)) stub.fields (s.get id).fields ∧
    List.Forall₂ (fun m d => (Script.methodDecl (surroundings s id) stub.name m).Ends
      (possibly s (s.get id).enclosing) (some d)) stub.methods (s.get id).methods := by
  obtain ⟨declaring, _, hbody⟩ := Script.ends_classDecl h.ends
  obtain ⟨hd, hhd, hfields, hmethods, _, hflags, hdecl, _, _, hvars, _⟩ :=
    Script.ends_classBody hbody
  have henclosing : (s.get id).enclosing = if stub.flags.isStatic then none else declaring := by
    rw [ClassDecl.enclosing, hflags, hdecl]
  have hsur : hd.surroundings = surroundings s id := by
    rw [Script.surroundings_of_header (definite_possibly s _) hhd, ← hvars, ← henclosing]
    rfl
  rw [← hsur]
  exact ⟨hfields, hmethods⟩

end DeclaredFrom

end Loader

end JvmTypes
