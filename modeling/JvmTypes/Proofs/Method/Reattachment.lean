import JvmTypes.Method.Text
import JvmTypes.Proofs.Annotation.Reflexivity
import JvmTypes.Proofs.Loader.Coherence
import JvmTypes.Proofs.Shape.Bounds
import JvmTypes.Proofs.Shape.Detaching
/-!
# Attaching the token of a method

A method that is detached and attached again keeps its dispatch slot and gives the same token once
more, as long as every symbol that stands for one of its variables means that variable where the
token is attached.
-/
namespace JvmTypes

open Substitution

namespace Shape

theorem erasure_eq {t : Shape} {e : Erased} (h : t.erasure? = some e) : t.erasure = .ok e := by
  simp [erasure, h]

theorem erasure_congr {t u : Shape} (h : t.erasure? = u.erasure?) : t.erasure = u.erasure := by
  simp [erasure, h]

theorem erasures_cons (t : Shape) (ts : List Shape) :
    erasures (t :: ts) = t.erasure >>= fun e => erasures ts >>= fun es => .ok (e :: es) := by
  rw [erasures, List.mapM_cons]
  rfl

theorem erasures_total {ts : List Shape} (h : ∀ t ∈ ts, ∃ e, t.erasure? = some e) :
    ∃ es, erasures ts = .ok es := by
  induction ts with
  | nil => exact ⟨[], rfl⟩
  | cons t ts ih =>
    obtain ⟨e, he⟩ := h t (by simp)
    obtain ⟨es, hes⟩ := ih fun u hu => h u (by simp [hu])
    exact ⟨e :: es, by rw [erasures_cons, erasure_eq he, hes]; rfl⟩

theorem erasures_map_map {f : Shape → Shape} {g : Erased → Erased} {ts : List Shape}
    (h : ∀ t ∈ ts, (f t).erasure? = t.erasure?.map g) :
    erasures (ts.map f) = (erasures ts).map (List.map g) := by
  induction ts with
  | nil => rfl
  | cons t ts ih =>
    rw [List.map_cons, erasures_cons, erasures_cons, ih fun u hu => h u (by simp [hu]), erasure,
      erasure, h t (by simp)]
    cases t.erasure? with
    | none => rfl
    | some e => cases erasures ts <;> rfl

theorem erasures_map {f : Shape → Shape} (h : ∀ t, (f t).erasure? = t.erasure?) (ts : List Shape) :
    erasures (ts.map f) = erasures ts := by
  rw [erasures_map_map (g := id) fun t _ => by rw [h, Option.map_id, id]]
  cases erasures ts with
  | error e => rfl
  | ok es => exact congrArg Except.ok (List.map_id es)

end Shape

namespace Method

variable {s : Store} {owner : ClassId} {erase : TypeVariable → Bool} {m : Method}

def shapes (m : Method) : List Shape := m.decl.shapes.map m.see

theorem shapes_eq (m : Method) : m.shapes =
    m.typeVariables.flatMap (·.bounds) ++ m.returnType :: (m.parameterTypes ++ m.exceptions) := by
  simp [shapes, MethodDecl.shapes, typeVariables, returnType, parameterTypes, exceptions,
    List.map_flatMap, List.flatMap_map]

theorem typeVariables_eq (m : Method) :
    m.typeVariables = m.decl.typeVariables.map (.mapBounds m.see) :=
  rfl

theorem see_ofDecl (C : ClassId) (d : MethodDecl) : (ofDecl C d).see = id := rfl

theorem mapBounds_id : TypeVarDecl.mapBounds id = id := by
  funext v
  rw [TypeVarDecl.mapBounds, List.map_id, id]

theorem typeVariables_ofDecl (C : ClassId) (d : MethodDecl) :
    (ofDecl C d).typeVariables = d.typeVariables := by
  rw [typeVariables_eq, see_ofDecl, mapBounds_id]
  exact List.map_id d.typeVariables

theorem exceptions_ofDecl (C : ClassId) (d : MethodDecl) :
    (ofDecl C d).exceptions = d.exceptions :=
  List.map_id d.exceptions

theorem shapes_ofDecl (C : ClassId) (d : MethodDecl) : (ofDecl C d).shapes = d.shapes :=
  List.map_id d.shapes

theorem bound_mem_shapes {v : TypeVarDecl} {b : Shape} (hv : v ∈ m.typeVariables)
    (hb : b ∈ v.bounds) :
    b ∈ m.shapes := by
  rw [shapes_eq]
  exact List.mem_append_left _ (List.mem_flatMap.mpr ⟨v, hv, hb⟩)

def Mentions (m : Method) (id : ClassId) : Prop := ∃ t ∈ m.shapes, id ∈ t.classes

instance (m : Method) (id : ClassId) : Decidable (m.Mentions id) :=
  inferInstanceAs (Decidable (∃ t ∈ m.shapes, id ∈ t.classes))

def mapToken (m : Method) (f : Shape → Shape) : MethodToken where
  internalName := m.internalName
  flags := m.flags
  typeVariables := m.typeVariables.map (.mapBounds f)
  returnType := f m.returnType
  parameters := m.decl.parameters.map fun p => ⟨f (m.see p.type), p.name, p.flags⟩
  exceptions := m.exceptions.map f
  annotations := m.decl.annotations
  defaultValue := m.decl.defaultValue

theorem mapToken_congr {f g : Shape → Shape} (h : ∀ t ∈ m.shapes, f t = g t) :
    m.mapToken f = m.mapToken g := by
  simp only [shapes_eq, List.mem_append, List.mem_cons, parameterTypes, List.mem_map] at h
  have hvars : m.typeVariables.map (TypeVarDecl.mapBounds f) =
      m.typeVariables.map (TypeVarDecl.mapBounds g) := by
    apply List.map_congr_left
    intro v hv
    have hbounds : v.bounds.map f = v.bounds.map g :=
      List.map_congr_left fun b hb => h b (Or.inl (List.mem_flatMap.mpr ⟨v, hv, hb⟩))
    rw [TypeVarDecl.mapBounds, hbounds, TypeVarDecl.mapBounds]
  have hreturn : f m.returnType = g m.returnType := h _ (Or.inr (Or.inl rfl))
  have hparameters : m.decl.parameters.map
      (fun p => (⟨f (m.see p.type), p.name, p.flags⟩ : ParameterDecl)) =
      m.decl.parameters.map fun p => ⟨g (m.see p.type), p.name, p.flags⟩ := by
    apply List.map_congr_left
    intro p hp
    rw [h _ (Or.inr (Or.inr (Or.inl ⟨p, hp, rfl⟩)))]
  have hexceptions : m.exceptions.map f = m.exceptions.map g :=
    List.map_congr_left fun e he => h e (Or.inr (Or.inr (Or.inr he)))
  rw [mapToken, hvars, hreturn, hparameters, hexceptions, mapToken]

theorem shapes_mapToken (m : Method) (f : Shape → Shape) :
    (m.mapToken f).shapes = m.shapes.map f := by
  simp [MethodToken.shapes, shapes_eq, mapToken, TypeVarDecl.mapBounds, parameterTypes,
    List.map_flatMap, List.flatMap_map]

theorem subst_mapToken (m : Method) (f : Shape → Shape) (σ : Substitution) :
    (m.mapToken f).subst σ = m.mapToken fun t => (f t).subst σ := by
  simp [MethodToken.subst, mapToken, TypeVarDecl.mapBounds]

theorem mapToken_ofDecl (m : Method) (owner : ClassId) (f g : Shape → Shape) :
    (ofDecl owner (m.mapToken f).toDecl).mapToken g = m.mapToken fun t => g (f t) := by
  simp [mapToken, MethodToken.toDecl, ofDecl, TypeVarDecl.mapBounds, internalName, flags,
    typeVariables, returnType, exceptions, see]

theorem parametersFrom_cons (m : Method) {p : ParameterDecl} {e : Erased}
    (he : p.type.erasure? = some e) (ps : List ParameterDecl) (index offset : Nat) :
    m.parametersFrom index offset (p :: ps) =
      (m.parametersFrom (index + 1) (offset + e.slots) ps).map
        fun qs => ⟨m.see p.type, index, offset, p.name, p.flags⟩ :: qs := by
  rw [parametersFrom, Shape.erasure_eq he]
  change (m.parametersFrom (index + 1) (offset + e.slots) ps >>= fun rest => .ok (_ :: rest)) = _
  cases m.parametersFrom (index + 1) (offset + e.slots) ps with
  | error _ => rfl
  | ok qs => rfl

theorem parametersFrom_total {ps : List ParameterDecl} (h : ∀ p ∈ ps, ∃ e, p.type.erasure? = some e)
    (index offset : Nat) : ∃ qs, m.parametersFrom index offset ps = .ok qs ∧
      qs.map (fun q => (⟨q.type, q.name?, q.flags?⟩ : ParameterDecl)) =
        ps.map fun p => ⟨m.see p.type, p.name, p.flags⟩ := by
  induction ps generalizing index offset with
  | nil => exact ⟨[], rfl, rfl⟩
  | cons p ps ih =>
    obtain ⟨e, he⟩ := h p (by simp)
    obtain ⟨qs, hqs, hmap⟩ := ih (fun q hq => h q (by simp [hq])) (index + 1) (offset + e.slots)
    refine ⟨⟨m.see p.type, index, offset, p.name, p.flags⟩ :: qs, ?_, ?_⟩
    · rw [parametersFrom_cons m he, hqs, Except.map]
    · rw [List.map_cons, hmap, List.map_cons]

theorem detachWith_eq (h : ∀ p ∈ m.decl.parameters, ∃ e, p.type.erasure? = some e)
    (σ : Substitution) :
    m.detachWith σ = .ok (m.mapToken (Shape.subst σ)) := by
  obtain ⟨qs, hqs, hmap⟩ := parametersFrom_total (m := m) h 0 m.receiverSlots
  have hparameters : qs.map (fun q => (⟨q.type.subst σ, q.name?, q.flags?⟩ : ParameterDecl)) =
      m.decl.parameters.map fun p => ⟨(m.see p.type).subst σ, p.name, p.flags⟩ := by
    let detached (p : ParameterDecl) : ParameterDecl := ⟨p.type.subst σ, p.name, p.flags⟩
    have hdetached := congrArg (List.map detached) hmap
    simpa [List.map_map, Function.comp_def, detached] using hdetached
  rw [detachWith, parameters, hqs]
  change Except.ok _ = _
  rw [hparameters]
  rfl

/-- Detached with `erase`, the method attaches to the class `owner`: its types have erasures, and
every variable that stays a symbol is what the symbol means for the method in the body of that
class. -/
structure Attachable (s : Store) (owner : ClassId) (erase : TypeVariable → Bool) (m : Method) :
    Prop where
  declared : ∀ p ∈ m.decl.parameters, ∃ e, p.type.erasure? = some e
  erased : ∀ t ∈ m.returnType :: m.parameterTypes, ∃ e, t.erasure? = some e
  targetless : ¬ m.Mentions .target
  attached : ∀ t ∈ m.shapes, ∀ v ∈ t.references, v.isDetached = false
  resolved : ∀ t ∈ m.shapes, ∀ v ∈ t.references, erase v = false →
    m.ownScope.orElse (Scope.ofClass s owner) v.symbol = some v

/-- The method that the token of `m` becomes in the class `owner`. -/
def reattached (m : Method) (owner : ClassId) (erase : TypeVariable → Bool) : Method :=
  ofDecl owner (m.mapToken (Shape.subst (erasing erase))).toDecl

theorem toTokenWith_eq (h : ∀ p ∈ m.decl.parameters, ∃ e, p.type.erasure? = some e)
    (erase : TypeVariable → Bool) :
    m.toTokenWith erase = .ok (m.mapToken (Shape.subst (detaching erase none))) :=
  detachWith_eq h _

theorem scope_mapToken {f : Shape → Shape} (hf : ∀ t, (f t).erasure? = t.erasure?)
    (htarget : ¬ m.Mentions .target) :
    (m.mapToken f).scope s owner = m.ownScope.orElse (Scope.ofClass s owner) := by
  funext symbol
  simp only [MethodToken.scope, Scope.orElse, ownScope, Scope.ofDecls, mapToken,
    TypeVarDecl.find?_mapBounds, Option.map_map]
  congr 1
  apply Option.map_congr
  intro v hv
  have herasure : v.erasure.replaceClass .target owner = v.erasure := by
    apply Erased.replaceClass_eq_self
    intro h
    rcases TypeVarDecl.mem_classes_erasure h with h | ⟨b, hb, h⟩
    · simp [ClassId.target, ClassId.object] at h
    · exact htarget ⟨b, bound_mem_shapes (List.mem_of_find?_eq_some hv) hb, h⟩
  rw [Function.comp_apply, TypeVarDecl.erasure_mapBounds hf, herasure]
  rfl

namespace Attachable

variable (h : Attachable s owner erase m)
include h

theorem attach_eq :
    (m.mapToken (Shape.subst (detaching erase none))).attach s owner =
      .ok (m.reattached owner erase) := by
  have hsubst : (m.mapToken (Shape.subst (detaching erase none))).subst
      (attachingIn ((m.mapToken (Shape.subst (detaching erase none))).scope s owner) owner) =
        m.mapToken (Shape.subst (erasing erase)) := by
    rw [subst_mapToken,
      scope_mapToken (Shape.erasure?_subst (keepsErasure_detaching erase)) h.targetless]
    apply mapToken_congr
    intro t ht
    exact Shape.attach_detach (fun v hv => ⟨h.attached t ht v hv, h.resolved t ht v hv⟩)
      fun hmem => h.targetless ⟨t, ht, hmem⟩
  have hnone : (m.mapToken (Shape.subst (erasing erase))).detachedSymbols = [] := by
    rw [MethodToken.detachedSymbols, shapes_mapToken, List.flatMap_eq_nil_iff]
    intro t' ht'
    obtain ⟨t, ht, rfl⟩ := List.mem_map.mp ht'
    exact Shape.detachedSymbols_eq_nil fun v hv =>
      h.attached t ht v (Shape.mem_references_erasing hv)
  rw [MethodToken.attach, hsubst, hnone]
  rfl

/-- The attached method gives the token that it was attached from. -/
theorem toTokenWith_reattached :
    (m.reattached owner erase).toTokenWith erase =
      .ok (m.mapToken (Shape.subst (detaching erase none))) := by
  rw [toTokenWith_eq, reattached, mapToken_ofDecl]
  · congr 1
    apply mapToken_congr
    intro t ht
    exact Shape.detach_erasing (h.attached t ht)
  · intro p hp
    obtain ⟨q, hq, rfl⟩ := List.mem_map.mp hp
    obtain ⟨e, he⟩ :=
      h.erased (m.see q.type) (List.mem_cons_of_mem _ (List.mem_map.mpr ⟨q, hq, rfl⟩))
    exact ⟨e, by rw [Shape.erasure?_subst (keepsErasure_erasing erase), he]⟩

end Attachable

theorem returnType_reattached (m : Method) (owner : ClassId) (erase : TypeVariable → Bool) :
    (m.reattached owner erase).returnType = m.returnType.subst (erasing erase) := rfl

theorem parameterTypes_reattached (m : Method) (owner : ClassId) (erase : TypeVariable → Bool) :
    (m.reattached owner erase).parameterTypes =
      m.parameterTypes.map (Shape.subst (erasing erase)) := by
  simp [parameterTypes, reattached, ofDecl, mapToken, MethodToken.toDecl, see]

theorem erasures_reattached (m : Method) (owner : ClassId) (erase : TypeVariable → Bool) :
    (m.reattached owner erase).returnType.erasure = m.returnType.erasure ∧
      Shape.erasures (m.reattached owner erase).parameterTypes =
        Shape.erasures m.parameterTypes := by
  have hkeeps := Shape.erasure?_subst (keepsErasure_erasing erase)
  rw [returnType_reattached, parameterTypes_reattached]
  exact ⟨Shape.erasure_congr (hkeeps _), Shape.erasures_map hkeeps _⟩

theorem typeToken_reattached (m : Method) (owner : ClassId) (erase : TypeVariable → Bool) :
    (m.reattached owner erase).typeToken = m.typeToken := by
  obtain ⟨hreturn, hparameters⟩ := m.erasures_reattached owner erase
  rw [typeToken, hreturn, hparameters, typeToken]

theorem descriptor_reattached (s : Store) (m : Method) (owner : ClassId)
    (erase : TypeVariable → Bool) :
    (m.reattached owner erase).descriptor s = m.descriptor s := by
  obtain ⟨hreturn, hparameters⟩ := m.erasures_reattached owner erase
  rw [descriptor, hreturn, hparameters, descriptor]

theorem descriptor_total (s : Store)
    (h : ∀ t ∈ m.returnType :: m.parameterTypes, ∃ e, t.erasure? = some e) :
    ∃ text, m.descriptor s = .ok text := by
  obtain ⟨e, he⟩ := h m.returnType (by simp)
  obtain ⟨es, hes⟩ := Shape.erasures_total fun t ht => h t (List.mem_cons_of_mem _ ht)
  rw [descriptor, hes, Shape.erasure_eq he]
  exact ⟨_, rfl⟩

theorem typeToken_total (h : ∀ t ∈ m.returnType :: m.parameterTypes, ∃ e, t.erasure? = some e) :
    ∃ t, m.typeToken = .ok t := by
  obtain ⟨e, he⟩ := h m.returnType (by simp)
  obtain ⟨es, hes⟩ := Shape.erasures_total fun t ht => h t (List.mem_cons_of_mem _ ht)
  exact ⟨⟨e, es⟩, by rw [typeToken, Shape.erasure_eq he, hes]; rfl⟩

theorem same_reattached (h : ∀ t ∈ m.returnType :: m.parameterTypes, ∃ e, t.erasure? = some e)
    (owner : ClassId) (erase : TypeVariable → Bool) :
    (m.reattached owner erase).same m = .ok true := by
  obtain ⟨t, ht⟩ := typeToken_total h
  have hname : (m.reattached owner erase).internalName = m.internalName := rfl
  rw [same, if_pos hname, typeToken_reattached, ht]
  change Except.ok (decide (t = t)) = _
  simp

theorem isIdenticalTo_mapToken (h : m.decl.hasNaN = false) (f : Shape → Shape) :
    (m.mapToken f).isIdenticalTo (m.mapToken f) = true :=
  MethodToken.isIdenticalTo_self h

end Method

end JvmTypes
