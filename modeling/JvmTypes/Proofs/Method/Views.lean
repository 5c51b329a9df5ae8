import JvmTypes.Members
import JvmTypes.Proofs.Binding.Composition
import JvmTypes.Proofs.Loader.Coherence
import JvmTypes.Proofs.Method.OwnVariables
import JvmTypes.Proofs.Method.Reattachment
/-!
# Methods seen through applied classes

A view keeps the variables that the method declares and gives each the erasure of its first bound as
the view shows it. Every other variable of the view comes from the arguments of the applied class,
or is one of a class around it.
-/
namespace JvmTypes

/-- What becomes of a variable, but for those of methods, and of a plain type has an erasure. -/
structure Substitution.GivesErasures (σ : Substitution) : Prop where
  var : ∀ v, v.source ≠ .method → ∃ e, (σ.var v).erasure? = some e
  erased : ∀ e, ∃ e', (σ.erased e).erasure? = some e'

namespace Shape

def allArguments : Shape → List Shape
  | .applied _ as none => as
  | .applied _ as (some owner) => as ++ allArguments owner
  | _ => []

theorem of_mem_allArguments {P : Shape} (hP : P.isRegular = true) :
    ∀ a ∈ P.allArguments, a.isRegularArgument = true ∧ ∀ v ∈ a.references, v ∈ P.references := by
  induction P with
  | applied raw as o _ ho =>
    obtain ⟨hargs, howner⟩ := isRegular_applied.mp hP
    have hhere : ∀ a ∈ as, a.isRegularArgument = true ∧
        ∀ v ∈ a.references, v ∈ (applied raw as o).references := by
      intro a ha
      exact ⟨hargs a ha, fun v hv => mem_references_applied.mpr (Or.inr ⟨a, ha, hv⟩)⟩
    cases o with
    | none => exact hhere
    | some p =>
      intro a ha
      rcases List.mem_append.mp ha with ha | ha
      · exact hhere a ha
      · obtain ⟨hregular, hrefs⟩ := ho p rfl (howner p rfl) a ha
        exact ⟨hregular, fun v hv => mem_references_applied.mpr (Or.inl ⟨p, rfl, hrefs v hv⟩)⟩
  | plain _ | array _ _ | upper _ _ | lower _ _ | reference _ => simp [allArguments]

end Shape

namespace Binding

variable {s : Store}

theorem mem_allArguments_of_collect {P : Shape} :
    ∀ entry ∈ collect s P, entry.2 ∈ P.allArguments := by
  have hown : ∀ raw as, ∀ entry ∈ entriesOf s raw as, entry.2 ∈ as := by
    intro raw as entry hentry
    obtain ⟨⟨v, a⟩, hva, rfl⟩ := List.mem_map.mp hentry
    exact (List.of_mem_zip hva).2
  induction P with
  | applied raw as o _ ho =>
    cases o with
    | none => exact hown raw as
    | some p =>
      intro entry hentry
      rcases List.mem_append.mp hentry with hentry | hentry
      · exact List.mem_append_left _ (hown raw as entry hentry)
      · exact List.mem_append_right _ (ho p rfl entry hentry)
  | plain _ | array _ _ | upper _ _ | lower _ _ | reference _ => simp [collect]

theorem mem_allArguments_of_lookup? {P a : Shape} {v : TypeVariable}
    (h : (ofShape s P).lookup? v = some a) : a ∈ P.allArguments := by
  unfold lookup? at h
  split at h
  · obtain ⟨entry, hentry, rfl⟩ := Option.map_eq_some_iff.mp h
    exact mem_allArguments_of_collect entry (List.mem_reverse.mp (List.mem_of_find?_eq_some hentry))
  · simp at h
  · simp at h

theorem argument_of_lookup? {P a : Shape} (hP : P.isRegular = true) {v : TypeVariable}
    (h : (ofShape s P).lookup? v = some a) :
    a.isRegularArgument = true ∧ ∀ w ∈ a.references, w ∈ P.references :=
  Shape.of_mem_allArguments hP a (mem_allArguments_of_lookup? h)

theorem isRegular_collapse {a : Shape} (h : a.isRegularArgument = true) :
    (collapse a).isRegular = true := by
  cases a <;> simp_all [collapse, Shape.isRegularArgument, Shape.isRegular, Shape.object,
    Shape.ofClass]

theorem references_collapse {a : Shape} {v : TypeVariable} (h : v ∈ (collapse a).references) :
    v ∈ a.references := by
  cases a <;> simp_all [collapse, Shape.object, Shape.ofClass]

theorem givesErasures {P : Shape} (hP : P.isRegular = true) :
    (ofShape s P).toSubstitution.GivesErasures := by
  refine ⟨?_, fun e => ⟨e, rfl⟩⟩
  intro v _
  cases h : (ofShape s P).lookup? v with
  | none =>
    rw [var_eq_self _ h]
    exact ⟨v.erasure, rfl⟩
  | some a =>
    rw [var_eq _ h]
    exact Shape.erasure?_of_isRegular (isRegular_collapse (argument_of_lookup? hP h).1)

theorem references_var {P : Shape} (hP : P.isRegular = true) {v w : TypeVariable}
    (h : w ∈ ((ofShape s P).toSubstitution.var v).references ∨
      w ∈ ((ofShape s P).toSubstitution.argument v).references) : w = v ∨ w ∈ P.references := by
  cases ha : (ofShape s P).lookup? v with
  | none =>
    rw [var_eq_self _ ha, argument_eq_self _ ha] at h
    exact Or.inl (by simpa using h)
  | some a =>
    rw [var_eq _ ha, argument_eq _ ha] at h
    exact Or.inr ((argument_of_lookup? hP ha).2 w (h.elim references_collapse id))

end Binding

namespace Method

open Substitution

variable {σ : Substitution} {vars : List TypeVarDecl} {d : MethodDecl}

theorem mem_shapes_of_parameter {p : ParameterDecl} (h : p ∈ d.parameters) : p.type ∈ d.shapes :=
  List.mem_append_right _
    (List.mem_cons_of_mem _ (List.mem_append_left _ (List.mem_map.mpr ⟨p, h, rfl⟩)))

theorem mem_shapes_of_returnType : d.returnType ∈ d.shapes :=
  List.mem_append_right _ (List.mem_cons_self ..)

theorem mem_shapes_of_exception {e : Shape} (h : e ∈ d.exceptions) : e ∈ d.shapes :=
  List.mem_append_right _ (List.mem_cons_of_mem _ (List.mem_append_right _ h))

theorem mem_shapes_of_bound {v : TypeVarDecl} {b : Shape} (hv : v ∈ d.typeVariables)
    (hb : b ∈ v.bounds) :
    b ∈ d.shapes :=
  List.mem_append_left _ (List.mem_flatMap.mpr ⟨v, hv, hb⟩)

/-- The erasure of a declared type in a view is the one that the erasures of the own variables are
made of. -/
theorem erasure?_retaining (h : σ.GivesErasures) {t : Shape} (ht : t.isRegular = true) :
    (t.subst (σ.retaining vars)).erasure? = some (σ.boundErasure (σ.ownErasure vars) t) := by
  induction t with
  | plain e =>
    obtain ⟨e', he⟩ := h.erased e
    rw [Shape.subst_plain, boundErasure, he]
    exact he
  | array c ih =>
    rw [Shape.subst_array, Shape.erasure?_arrayOf, ih (by simpa [Shape.isRegular] using ht),
      boundErasure]
    rfl
  | applied raw as o _ _ =>
    rw [Shape.subst_applied]
    rfl
  | upper b _ => simp [Shape.isRegular] at ht
  | lower b _ => simp [Shape.isRegular] at ht
  | reference v =>
    rw [Shape.subst_reference, boundErasure]
    by_cases hv : v.source = .method
    · simp [retaining, hv, Shape.erasure?]
    · obtain ⟨e, he⟩ := h.var v hv
      simp [retaining, hv, he]

theorem erasure_retaining (h : σ.GivesErasures) {symbol : String} {v : TypeVarDecl}
    (hv : TypeVarDecl.find? symbol vars = some v) (hground : TypeVarDecl.Grounded vars symbol)
    (hregular : ∀ b ∈ v.bounds, b.isRegular = true) :
    (v.mapBounds (Shape.subst (σ.retaining vars))).erasure = σ.ownErasure vars symbol := by
  rw [ownErasure_eq hground, hv, Option.bind_some, TypeVarDecl.erasure, TypeVarDecl.mapBounds]
  cases hbounds : v.bounds with
  | nil => rfl
  | cons b bs =>
    rw [List.map_cons, List.head?_cons, List.head?_cons, Option.bind_some,
      erasure?_retaining h (hregular b (by simp [hbounds]))]
    rfl

theorem ownScope_eq (m : Method) (symbol : String) :
    m.ownScope symbol = (TypeVarDecl.find? symbol m.decl.typeVariables).map fun v =>
      ⟨v.symbol, .method, (v.mapBounds m.see).erasure⟩ := by
  rw [ownScope, Scope.ofDecls, typeVariables_eq, TypeVarDecl.find?_mapBounds, Option.map_map]
  rfl

theorem reference_cases {outer : Scope}
    (houter : ∀ symbol v, outer symbol = some v → v.isOfClass = true) {v : TypeVariable}
    (h : d.scopeIn outer v.symbol = some v) :
    (v.source = .method ∧ ∃ decl, TypeVarDecl.find? v.symbol d.typeVariables = some decl ∧
        v = ⟨decl.symbol, .method, decl.erasure⟩) ∨
      (v.isOfClass = true ∧ TypeVarDecl.find? v.symbol d.typeVariables = none ∧
        outer v.symbol = some v) := by
  rcases Option.or_eq_some_iff.mp h with h | ⟨hnone, h⟩
  · obtain ⟨decl, hdecl, hv⟩ := Option.map_eq_some_iff.mp h
    exact Or.inl ⟨by rw [← hv], decl, hdecl, hv.symm⟩
  · exact Or.inr ⟨houter _ v h, Option.map_eq_none_iff.mp hnone, h⟩

end Method

theorem TypeVariable.isDetached_of_isOfClass {v : TypeVariable} (h : v.isOfClass = true) :
    v.isDetached = false := by
  unfold isOfClass at h
  unfold isDetached
  split at h <;> simp_all

theorem TypeVariable.isDeclaredOutside_of_isOfClass {v : TypeVariable} (h : v.isOfClass = true) :
    Method.isDeclaredOutside v = true := by
  unfold isOfClass at h
  unfold Method.isDeclaredOutside
  split at h <;> simp_all

theorem Scope.isOfClass_of_ofClass {s : Store} {id : ClassId} {symbol : String} {v : TypeVariable}
    (h : ofClass s id symbol = some v) : v.isOfClass = true := by
  obtain ⟨o, ho⟩ := source_of_ofClass h
  simp [TypeVariable.isOfClass, ho]

end JvmTypes
