import JvmTypes.Hierarchy
import JvmTypes.Proofs.Shape.Substitution
/-!
# Bindings in a row

To bind the arguments of an applied class first and to look through it afterwards is the same as to
look through it first and to bind in what was seen. A wildcard collapses only outside of an argument
position, so the two sides collapse at different moments and still agree.
-/
namespace JvmTypes

def TypeVariable.isOfClass (v : TypeVariable) : Bool :=
  match v.source with
  | .type _ => true
  | .method | .detached => false

namespace Shape

/-- A class applied to arguments, inside no type or inside another such type. -/
def isAppliedChain : Shape → Bool
  | .applied _ _ none => true
  | .applied _ _ (some o) => o.isAppliedChain
  | _ => false

end Shape

namespace Binding

variable {s : Store} {b τ : Binding}

/-- Every variable of a class that occurs in the shape has an argument. -/
def Covers (b : Binding) (t : Shape) : Prop :=
  ∀ v ∈ t.references, v.isOfClass = true → (b.lookup? v).isSome

instance (b : Binding) (t : Shape) : Decidable (b.Covers t) :=
  inferInstanceAs (Decidable (∀ v ∈ t.references, v.isOfClass = true → (b.lookup? v).isSome = true))

def through (b : Binding) (σ : Substitution) : Binding :=
  ⟨b.entries.map fun (key, a) => (key, σ.onArgument a)⟩

theorem lookup?_through (b : Binding) (σ : Substitution) (v : TypeVariable) :
    (b.through σ).lookup? v = (b.lookup? v).map σ.onArgument := by
  cases hv : v.source with
  | type id =>
    simp only [lookup?, hv, get?, through, ← List.map_reverse, List.find?_map, Option.map_map]
    rfl
  | method => simp [lookup?, hv]
  | detached => simp [lookup?, hv]

theorem lookup?_eq_none (b : Binding) {v : TypeVariable} (hv : v.isOfClass = false) :
    b.lookup? v = none := by
  unfold TypeVariable.isOfClass at hv
  unfold lookup?
  split at hv <;> simp_all

theorem entriesOf_map (s : Store) (raw : ClassId) (as : List Shape) (f : Shape → Shape) :
    entriesOf s raw (as.map f) = (entriesOf s raw as).map fun (key, a) => (key, f a) := by
  simp [entriesOf, List.zip_map_right]

theorem ofShape_subst {P : Shape} (hP : P.isAppliedChain = true) :
    ofShape s (P.subst τ.toSubstitution) = (ofShape s P).through τ.toSubstitution := by
  suffices h : collect s (P.subst τ.toSubstitution) =
      (collect s P).map fun (key, a) => (key, τ.toSubstitution.onArgument a) by
    simp [ofShape, through, h]
  induction P with
  | applied raw as o _ ho =>
    have hraw : τ.toSubstitution.raw raw = raw := rfl
    cases o with
    | none => simp [Shape.subst_applied, collect, hraw, entriesOf_map]
    | some p =>
      have hp := ho p rfl (by simpa [Shape.isAppliedChain] using hP)
      simp [Shape.subst_applied, collect, hraw, entriesOf_map, hp]
  | plain _ | array _ _ | upper _ _ | lower _ _ | reference _ => simp [Shape.isAppliedChain] at hP

theorem var_eq (b : Binding) {v : TypeVariable} {a : Shape} (h : b.lookup? v = some a) :
    b.toSubstitution.var v = collapse a := by
  simp [toSubstitution, h]

theorem argument_eq (b : Binding) {v : TypeVariable} {a : Shape} (h : b.lookup? v = some a) :
    b.toSubstitution.argument v = a := by
  simp [toSubstitution, h]

theorem var_eq_self (b : Binding) {v : TypeVariable} (h : b.lookup? v = none) :
    b.toSubstitution.var v = .variable v := by
  simp [toSubstitution, h]

theorem argument_eq_self (b : Binding) {v : TypeVariable} (h : b.lookup? v = none) :
    b.toSubstitution.argument v = .variable v := by
  simp [toSubstitution, h]

theorem collapse_argument (τ : Binding) (v : TypeVariable) :
    collapse (τ.toSubstitution.argument v) = τ.toSubstitution.var v := by
  cases h : τ.lookup? v with
  | none => rw [argument_eq_self τ h, var_eq_self τ h]; rfl
  | some a => rw [argument_eq τ h, var_eq τ h]

theorem collapse_onArgument (τ : Binding) (a : Shape) :
    collapse (τ.toSubstitution.onArgument a) = (collapse a).subst τ.toSubstitution := by
  cases a with
  | plain e => rfl
  | array c =>
    change _ = (Shape.array c).subst τ.toSubstitution
    rw [Shape.onArgument_eq_subst (by simp), Shape.subst_array]
    cases c.subst τ.toSubstitution <;> rfl
  | applied raw as o =>
    change _ = (Shape.applied raw as o).subst τ.toSubstitution
    rw [Shape.onArgument_eq_subst (by simp), Shape.subst_applied]
    rfl
  | upper b =>
    rw [Shape.onArgument_eq_subst (by simp), Shape.subst_upper]
    rfl
  | lower b =>
    rw [Shape.onArgument_eq_subst (by simp), Shape.subst_lower]
    rfl
  | «variable» v => exact (collapse_argument τ v).trans (Shape.subst_reference _ v).symm

theorem subst_through {t : Shape} (ht : b.Covers t) :
    t.subst (b.through τ.toSubstitution).toSubstitution =
      (t.subst b.toSubstitution).subst τ.toSubstitution := by
  rw [Shape.subst_subst b.keepsSort τ.keepsSort]
  apply Shape.subst_congr
  · intro v hv
    change _ = (b.toSubstitution.var v).subst τ.toSubstitution
    cases h : b.lookup? v with
    | some a =>
      have h' := (lookup?_through b τ.toSubstitution v).trans (congrArg _ h)
      rw [var_eq _ h', var_eq _ h, collapse_onArgument]
    | none =>
      have hclass : v.isOfClass = false := by
        by_contra hc
        simpa [h] using ht v hv (by simpa using hc)
      rw [var_eq_self _ (lookup?_eq_none _ hclass), var_eq_self _ h, Shape.subst_reference,
        var_eq_self _ (lookup?_eq_none _ hclass)]
  · intro v hv
    change _ = τ.toSubstitution.onArgument (b.toSubstitution.argument v)
    cases h : b.lookup? v with
    | some a =>
      have h' := (lookup?_through b τ.toSubstitution v).trans (congrArg _ h)
      rw [argument_eq _ h', argument_eq _ h]
    | none =>
      have hclass : v.isOfClass = false := by
        by_contra hc
        simpa [h] using ht v hv (by simpa using hc)
      rw [argument_eq_self _ (lookup?_eq_none _ hclass), argument_eq_self _ h,
        Substitution.onArgument, argument_eq_self _ (lookup?_eq_none _ hclass)]
  · intro e _
    rfl
  · intro id _
    rfl

end Binding

namespace Shape

variable {s : Store} {raw : ClassId} {as : List Shape} {o : Option Shape}

theorem supertype_applied (s : Store) (raw : ClassId) (as : List Shape) (o : Option Shape) :
    (applied raw as o).supertype s =
      .ok ((s.get raw).superclass.map
        (·.subst (Binding.ofShape s (.applied raw as o)).toSubstitution)) := rfl

theorem interfaces_applied (s : Store) (raw : ClassId) (as : List Shape) (o : Option Shape) :
    (applied raw as o).interfaces s =
      .ok ((s.get raw).interfaces.map
        (·.subst (Binding.ofShape s (.applied raw as o)).toSubstitution)) := rfl

/-- What is seen through a type whose arguments were bound before is what was seen through the type,
bound afterwards; so are the super types, level by level. -/
theorem views_commute_with_binding (s : Store) (τ : Binding) {P : Shape}
    (hP : P = .applied raw as o) (hchain : P.isAppliedChain = true) :
    (∀ t, (Binding.ofShape s P).Covers t →
      t.subst (Binding.ofShape s (P.subst τ.toSubstitution)).toSubstitution =
        (t.subst (Binding.ofShape s P).toSubstitution).subst τ.toSubstitution) ∧
    ((∀ t ∈ (s.get raw).superclass, (Binding.ofShape s P).Covers t) →
      (P.subst τ.toSubstitution).supertype s =
        (P.supertype s).map (Option.map (subst τ.toSubstitution))) ∧
    ((∀ t ∈ (s.get raw).interfaces, (Binding.ofShape s P).Covers t) →
      (P.subst τ.toSubstitution).interfaces s =
        (P.interfaces s).map (List.map (subst τ.toSubstitution))) := by
  have hsubst : ∀ t, (Binding.ofShape s P).Covers t →
      t.subst (Binding.ofShape s (P.subst τ.toSubstitution)).toSubstitution =
        (t.subst (Binding.ofShape s P).toSubstitution).subst τ.toSubstitution := by
    intro t ht
    rw [Binding.ofShape_subst hchain]
    exact Binding.subst_through ht
  have happlied : P.subst τ.toSubstitution =
      .applied raw (as.map τ.toSubstitution.onArgument) (o.map (subst τ.toSubstitution)) := by
    rw [hP, subst_applied]
    rfl
  refine ⟨hsubst, ?_, ?_⟩
  · intro hcovers
    have hmap : ∀ t ∈ (s.get raw).superclass,
        t.subst (Binding.ofShape s (P.subst τ.toSubstitution)).toSubstitution =
          (t.subst (Binding.ofShape s P).toSubstitution).subst τ.toSubstitution :=
      fun t ht => hsubst t (hcovers t ht)
    rw [happlied, supertype_applied, ← happlied, hP, supertype_applied, ← hP]
    simp only [Except.map, Option.map_map]
    exact congrArg Except.ok (Option.map_congr hmap)
  · intro hcovers
    have hmap : ∀ t ∈ (s.get raw).interfaces,
        t.subst (Binding.ofShape s (P.subst τ.toSubstitution)).toSubstitution =
          (t.subst (Binding.ofShape s P).toSubstitution).subst τ.toSubstitution :=
      fun t ht => hsubst t (hcovers t ht)
    rw [happlied, interfaces_applied, ← happlied, hP, interfaces_applied, ← hP]
    simp only [Except.map, List.map_map]
    exact congrArg Except.ok (List.map_congr_left hmap)

def boxE : Shape := .variable ⟨"E", .type ⟨14⟩, .object⟩

def boxAndPair : List ClassDecl :=
  [{ name := "p.Box", flags := .empty, typeVariables := [⟨"E", [.object]⟩],
     superclass := some (.applied ⟨15⟩ [boxE, .array boxE] none) },
   { name := "p.Pair", flags := .empty, typeVariables := [⟨"F", [.object]⟩, ⟨"G", [.object]⟩],
     superclass := some .object }]

def boxStore : Store := ⟨(Store.seeds ++ boxAndPair).toArray⟩

/-- `Box<? extends F>` for the variable `F` of `Pair`, which `superString` binds to a wildcard of
its own. -/
def boxOfExtends : Shape := .applied ⟨14⟩ [.upper (.variable ⟨"F", .type ⟨15⟩, .object⟩)] none

def superString : Binding := ⟨[((⟨15⟩, "F"), .lower (.ofClass .string))]⟩

theorem views_commute_with_binding_of_box :
    boxOfExtends.isAppliedChain = true ∧
    (Binding.ofShape boxStore boxOfExtends).Covers (.array boxE) ∧
    (array boxE).subst
      (Binding.ofShape boxStore (boxOfExtends.subst superString.toSubstitution)).toSubstitution =
      ((array boxE).subst (Binding.ofShape boxStore boxOfExtends).toSubstitution).subst
        superString.toSubstitution ∧
    (∀ t ∈ (boxStore.get ⟨14⟩).superclass, (Binding.ofShape boxStore boxOfExtends).Covers t) ∧
    (boxOfExtends.subst superString.toSubstitution).supertype boxStore =
      (boxOfExtends.supertype boxStore).map (Option.map (subst superString.toSubstitution)) := by
  obtain ⟨hsubst, hsuper, _⟩ :=
    views_commute_with_binding boxStore superString (P := boxOfExtends) rfl (by decide)
  exact ⟨by decide, by decide, hsubst _ (by decide), by decide, hsuper (by decide)⟩

end Shape

end JvmTypes
