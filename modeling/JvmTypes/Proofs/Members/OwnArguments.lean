import JvmTypes.Proofs.Loader.Calls
import JvmTypes.Proofs.Members.Narrowing
/-!
# A class seen through its own variables

A class that is applied to the references its scope has for its own variables shows itself: its
super types and members have the types they were declared with.
-/
namespace JvmTypes

open Substitution

namespace Shape

variable {s : Store} {C : ClassId}

/-- The class applied to the references that its scope has for its own variables. -/
def ownType (s : Store) (C : ClassId) : Shape :=
  .applied C ((s.get C).typeVariables.filterMap fun d =>
    (Scope.declaredBy s C d.symbol).map .variable) none

def IsOwnReference (s : Store) (C : ClassId) (d : TypeVarDecl) (t : Shape) : Prop :=
  ∃ v, Scope.declaredBy s C d.symbol = some v ∧ t = .variable v

theorem arguments_ownType (s : Store) (C : ClassId) :
    List.Forall₂ (IsOwnReference s C) (s.get C).typeVariables (ownType s C).arguments := by
  have hall : ∀ ds ⊆ (s.get C).typeVariables, List.Forall₂ (IsOwnReference s C) ds
      (ds.filterMap fun d => (Scope.declaredBy s C d.symbol).map .variable) := by
    intro ds hds
    induction ds with
    | nil => exact .nil
    | cons d ds ih =>
      obtain ⟨hd, hds⟩ := List.cons_subset.mp hds
      obtain ⟨found, hfound⟩ : ∃ found, TypeVarDecl.find? d.symbol (s.get C).typeVariables =
          some found :=
        Option.isSome_iff_exists.mp (List.find?_isSome.mpr ⟨d, hd, by simp⟩)
      have hdeclared : Scope.declaredBy s C d.symbol =
          some ⟨found.symbol, .type C, found.erasure⟩ := by
        rw [Scope.declaredBy, Scope.ofDecls, hfound, Option.map_some]
      rw [List.filterMap_cons_some (by rw [hdeclared, Option.map_some])]
      exact .cons ⟨_, hdeclared, rfl⟩ (ih hds)
  exact hall _ (List.Subset.refl _)

theorem isRegular_ownType (s : Store) (C : ClassId) : (ownType s C).isRegular = true := by
  rw [ownType, isRegular_applied]
  refine ⟨?_, by simp⟩
  intro a ha
  obtain ⟨d, _, ha⟩ := List.mem_filterMap.mp ha
  obtain ⟨v, _, rfl⟩ := Option.map_eq_some_iff.mp ha
  rfl

theorem lookup?_ownType {v : TypeVariable} {a : Shape}
    (h : (Binding.ofShape s (ownType s C)).lookup? v = some a) :
    ∃ w, Scope.declaredBy s C v.symbol = some w ∧ a = .variable w := by
  unfold Binding.lookup? at h
  split at h
  · obtain ⟨entry, hentry, rfl⟩ := Option.map_eq_some_iff.mp h
    have hmem := List.mem_reverse.mp (List.mem_of_find?_eq_some hentry)
    obtain ⟨⟨d, b⟩, hdb, rfl⟩ := List.mem_map.mp hmem
    have hkey : d.symbol = v.symbol := by
      have hkey := List.find?_some hentry
      simp only [Prod.mk.injEq, decide_eq_true_eq] at hkey
      exact hkey.2
    rw [← hkey]
    exact (List.forall₂_iff_zip.mp (arguments_ownType s C)).2 hdb
  · cases h
  · cases h

theorem ownType_keeps {v : TypeVariable} (h : Scope.ofClass s C v.symbol = some v) :
    (Binding.ofShape s (ownType s C)).toSubstitution.var v = .variable v ∧
      (Binding.ofShape s (ownType s C)).toSubstitution.argument v = .variable v := by
  cases ha : (Binding.ofShape s (ownType s C)).lookup? v with
  | none => exact ⟨Binding.var_eq_self _ ha, Binding.argument_eq_self _ ha⟩
  | some a =>
    obtain ⟨w, hw, rfl⟩ := lookup?_ownType ha
    have hseen : Scope.ofClass s C v.symbol = some w := by
      rw [Scope.ofClass_eq_inside]
      exact Option.or_eq_some_iff.mpr (Or.inl hw)
    obtain rfl := Option.some.inj (h.symm.trans hseen)
    exact ⟨Binding.var_eq _ ha, Binding.argument_eq _ ha⟩

theorem relates_ownType (s : Store) (C : ClassId) :
    (Binding.ofShape s (ownType s C)).toSubstitution.Relates (· = ·) (Scope.ofClass s C) where
  refl _ := rfl
  array _ _ h := by rw [h]
  outer symbol v hv := by
    obtain ⟨_, _, rfl, _⟩ := Scope.declaredBy_of_ofClass hv
    refine ⟨Scope.isOfClass_of_ofClass hv, ?_⟩
    rw [(ownType_keeps hv).1]
    exact fun e he => Option.some.inj he
  gives := Binding.givesErasures (isRegular_ownType s C)
  erased _ := rfl
  raw _ := rfl

theorem subst_ownType {t : Shape} (ht : t.WellFormed fun v => Scope.ofClass s C v.symbol = some v) :
    t.subst (Binding.ofShape s (ownType s C)).toSubstitution = t :=
  subst_eq_self ht.normal (fun v hv => ownType_keeps (ht.references v hv)) (fun _ => rfl)
    fun _ => rfl

/-- The erasure that the view works out for an own variable of a method is the declared one, which
every reference to the variable carries already. -/
theorem retaining_ownType {d : MethodDecl} (hd : d.Coherent (Scope.ofClass s C)) {t : Shape}
    (ht : t ∈ d.shapes) :
    t.subst ((Binding.ofShape s (ownType s C)).toSubstitution.retaining d.typeVariables) = t := by
  refine subst_eq_self (hd.shapes t ht).normal ?_ (fun _ => rfl) fun _ => rfl
  intro v hv
  obtain ⟨hown, houter⟩ := (relates_ownType s C).reference_cases hd ht hv
  by_cases hsource : v.source = .method
  · obtain ⟨decl, hdecl, herasure⟩ := hown hsource
    have hworked := (relates_ownType s C).ownErasure hd hdecl
    simp only [retaining, hsource, if_true, ← hworked, ← herasure]
    rw [← hsource]
    exact ⟨rfl, rfl⟩
  · simp only [retaining, hsource, if_false]
    exact ownType_keeps (houter hsource)

end Shape

structure Field.ShowsDeclared (s : Store) (declared view : Field) : Prop where
  owner : view.owner = declared.owner
  decl : view.decl = declared.decl
  type : view.type = declared.type
  descriptor : ∃ text, view.descriptor s = .ok text ∧ declared.descriptor s = .ok text
  signature : view.signatureText? s = declared.signatureText? s

theorem Field.showsDeclared_of_type {s : Store} {declared view : Field}
    (howner : view.owner = declared.owner) (hdecl : view.decl = declared.decl)
    (htype : view.type = declared.type) (hregular : declared.type.isRegular = true) :
    Field.ShowsDeclared s declared view := by
  obtain ⟨e, he⟩ := Shape.erasure?_of_isRegular hregular
  have hdescriptor : declared.descriptor s = .ok (e.descriptor s) := by
    rw [descriptor, Shape.erasure_eq he]
    rfl
  refine ⟨howner, hdecl, htype, ⟨_, ?_, hdescriptor⟩, ?_⟩
  · rw [← hdescriptor, descriptor, htype, descriptor]
  · rw [signatureText?, htype, signatureText?]

namespace Method

/-- The view has all types of the method as declared, and with them the same texts. -/
structure ShowsDeclared (s : Store) (declared view : Method) : Prop where
  owner : view.owner = declared.owner
  decl : view.decl = declared.decl
  typeVariables : view.typeVariables = declared.typeVariables
  parameterTypes : view.parameterTypes = declared.parameterTypes
  parameters : view.parameters = declared.parameters
  returnType : view.returnType = declared.returnType
  exceptions : view.exceptions = declared.exceptions
  descriptor : ∃ text, view.descriptor s = .ok text ∧ declared.descriptor s = .ok text
  signature : view.signatureText? s = declared.signatureText? s

variable {s : Store} {C : ClassId} {d : MethodDecl} {m view : Method}

theorem parametersFrom_congr {ps : List ParameterDecl}
    (h : ∀ p ∈ ps, view.see p.type = m.see p.type) (index offset : Nat) :
    view.parametersFrom index offset ps = m.parametersFrom index offset ps := by
  induction ps generalizing index offset with
  | nil => rfl
  | cons p ps ih =>
    have hrest := ih fun q hq => h q (by simp [hq])
    simp only [parametersFrom, hrest, h p (by simp)]

theorem showsDeclared_through (hregular : d.IsRegular) (T : Shape) {σ : Substitution}
    (h : ∀ t ∈ d.shapes, t.subst (σ.retaining d.typeVariables) = t) :
    (ofDecl C d).ShowsDeclared s ((ofDecl C d).through T σ) := by
  have hsee : ∀ t ∈ d.shapes, ((ofDecl C d).through T σ).see t = (ofDecl C d).see t := h
  have hparameter : ∀ p ∈ d.parameters,
      ((ofDecl C d).through T σ).see p.type = (ofDecl C d).see p.type :=
    fun p hp => hsee p.type (mem_shapes_of_parameter hp)
  have hvars : ((ofDecl C d).through T σ).typeVariables = (ofDecl C d).typeVariables := by
    apply List.map_congr_left
    intro v hv
    rw [List.map_congr_left fun b hb => hsee b (mem_shapes_of_bound hv hb)]
  have hparameterTypes : ((ofDecl C d).through T σ).parameterTypes = (ofDecl C d).parameterTypes :=
    List.map_congr_left hparameter
  have hreturn : ((ofDecl C d).through T σ).returnType = (ofDecl C d).returnType :=
    hsee d.returnType mem_shapes_of_returnType
  have hexceptions : ((ofDecl C d).through T σ).exceptions = (ofDecl C d).exceptions :=
    List.map_congr_left fun e he => hsee e (mem_shapes_of_exception he)
  have hdeclared : (ofDecl C d).IsRegular := isRegular_ofDecl hregular
  obtain ⟨text, htext⟩ := descriptor_total s hdeclared.erased
  refine ⟨rfl, rfl, hvars, hparameterTypes, parametersFrom_congr hparameter _ _, hreturn,
    hexceptions, ⟨text, ?_, htext⟩, ?_⟩
  · rw [← htext, descriptor, hparameterTypes, hreturn, descriptor]
  · rw [signatureText?, signatureText?, isGeneric, isGeneric, signature, signature, hvars,
      hparameterTypes, hreturn, hexceptions]

end Method

namespace Shape

variable {st : Loader.State} {C : ClassId}

/-- Seen through the type that applies a class to its own variables, the class has the super types,
fields and methods that it declares, with the types that it declares them with. -/
theorem own_view_shows_declared (h : Loader.Reachable st)
    (hdistinct : (st.store.get C).HasDistinctParameters) :
    (ownType st.store C).supertype st.store = .ok (st.store.get C).superclass ∧
    (ownType st.store C).interfaces st.store = .ok (st.store.get C).interfaces ∧
    (∃ fs, (ownType st.store C).fields st.store = .ok fs ∧
      List.Forall₂ (Field.ShowsDeclared st.store)
        ((st.store.get C).fields.map (Field.ofDecl C)) fs) ∧
    ∃ ms, (ownType st.store C).methods st.store = .ok ms ∧
      List.Forall₂ (Method.ShowsDeclared st.store) (Method.declaredBy st.store C) ms := by
  have hcoherent := h.coherent_get hdistinct
  have hshape : ∀ t ∈ (st.store.get C).shapes,
      t.subst (Binding.ofShape st.store (ownType st.store C)).toSubstitution = t :=
    fun t ht => subst_ownType (hcoherent.wellFormed ht)
  refine ⟨?_, ?_, ⟨_, fields_applied _ _ _ _, ?_⟩, _, methods_applied _ _ _ _, ?_⟩
  · rw [ownType, supertype_applied, ← ownType]
    cases hsuper : (st.store.get C).superclass with
    | none => rfl
    | some t => rw [Option.map_some, hshape t (by simp [ClassDecl.shapes, hsuper])]
  · rw [ownType, interfaces_applied, ← ownType]
    rw [List.map_congr_left (g := id) fun t ht => hshape t (by simp [ClassDecl.shapes, ht]),
      List.map_id]
  · apply forall₂_map_self
    intro f hf
    obtain ⟨d, hd, rfl⟩ := List.mem_map.mp hf
    have hmem : d.type ∈ (st.store.get C).shapes :=
      List.mem_append_right _ (List.mem_map.mpr ⟨d, hd, rfl⟩)
    exact Field.showsDeclared_of_type rfl rfl (hshape d.type hmem) (hcoherent.shapes _ hmem).regular
  · apply forall₂_map_self
    intro m hm
    obtain ⟨d, hd, rfl⟩ := List.mem_map.mp hm
    have hmethod := hcoherent.method hd
    exact Method.showsDeclared_through (fun t ht => (hmethod.shapes t ht).regular) _
      fun t ht => retaining_ownType hmethod ht

/-- `<X extends T, Y extends X> Y pick(X, E[])` of the class `Cell`. -/
def pickStub : MethodStub where
  name := "pick"
  descriptor := "(Ljava/lang/Cloneable;[Ljava/lang/Cloneable;)Ljava/lang/Cloneable;"
  signature := some "<X:TT;Y:TX;>(TX;[TE;)TY;"
  flags := .empty
  exceptions := []
  annotations := []
  defaultValue := none
  parameters := []

/-- `Grid<E extends Cloneable>` and its inner class `Cell<T extends E>`, which extends `Grid<T[]>`
and has a field of type `Grid<? super T>`. -/
def gridStubs : List ClassStub :=
  [{ Loader.bareStub "p.Grid" with
      signature := some "<E::Ljava/lang/Cloneable;>Ljava/lang/Object;" },
    { Loader.bareStub "p.Grid$Cell" with
      superclass := some "p.Grid"
      signature := some "<T:TE;>Lp/Grid<[TT;>;"
      declaring := some "p.Grid"
      fields := [⟨"above", "Lp/Grid;", some "Lp/Grid<-TT;>;", .empty, []⟩]
      methods := [pickStub] }]

def gridState : Loader.State :=
  (Loader.load (Loader.ofStubs gridStubs) {} "p.Grid$Cell" { store := .initial }).2

/-- The view shows `Y`, whose erasure it works out from that of `T`, and `E` of the class around. -/
theorem grid_cell_shows_declared :
    let cell := ownType gridState.store ⟨14⟩
    Loader.Reachable gridState ∧ (gridState.store.get ⟨14⟩).HasDistinctParameters ∧
    cell.arguments = [.variable ⟨"T", .type ⟨14⟩, .cls .cloneable⟩] ∧
    cell.supertype gridState.store = .ok (some
      (.applied ⟨15⟩ [.array (.variable ⟨"T", .type ⟨14⟩, .cls .cloneable⟩)] none)) ∧
    (∃ f, cell.fields gridState.store = .ok [f] ∧
      f.type = .applied ⟨15⟩ [.lower (.variable ⟨"T", .type ⟨14⟩, .cls .cloneable⟩)] none) ∧
    ∃ m, cell.methods gridState.store = .ok [m] ∧
      m.parameterTypes = [.variable ⟨"X", .method, .cls .cloneable⟩,
        .array (.variable ⟨"E", .type ⟨15⟩, .cls .cloneable⟩)] ∧
      m.returnType = .variable ⟨"Y", .method, .cls .cloneable⟩ := by
  intro cell
  have hreachable : Loader.Reachable gridState :=
    .load _ {} "p.Grid$Cell" (Loader.faithful_ofStubs gridStubs) .start
  have hdistinct : (gridState.store.get ⟨14⟩).HasDistinctParameters := by decide +kernel
  have hsuperclass : (gridState.store.get ⟨14⟩).superclass = some
      (.applied ⟨15⟩ [.array (.variable ⟨"T", .type ⟨14⟩, .cls .cloneable⟩)] none) := by
    decide +kernel
  have habove : (gridState.store.get ⟨14⟩).fields.map (·.type) =
      [.applied ⟨15⟩ [.lower (.variable ⟨"T", .type ⟨14⟩, .cls .cloneable⟩)] none] := by
    decide +kernel
  have hpick : (gridState.store.get ⟨14⟩).methods.map
      (fun d => (d.parameters.map (·.type), d.returnType)) =
      [([.variable ⟨"X", .method, .cls .cloneable⟩,
          .array (.variable ⟨"E", .type ⟨15⟩, .cls .cloneable⟩)],
        .variable ⟨"Y", .method, .cls .cloneable⟩)] := by
    decide +kernel
  obtain ⟨field, hfield, hfieldType⟩ := List.map_eq_singleton_iff.mp habove
  obtain ⟨pick, hmethod, hpickTypes⟩ := List.map_eq_singleton_iff.mp hpick
  obtain ⟨hparameterTypes, hreturn⟩ := Prod.mk.inj hpickTypes
  obtain ⟨hsuper, _, ⟨fs, hfs, hfields⟩, ms, hms, hmethods⟩ :=
    own_view_shows_declared hreachable hdistinct
  rw [hsuperclass] at hsuper
  rw [hfield, List.map_singleton, List.forall₂_cons_left_iff] at hfields
  rw [Method.declaredBy, hmethod, List.map_singleton, List.forall₂_cons_left_iff] at hmethods
  obtain ⟨f, _, hf, hnil, rfl⟩ := hfields
  obtain rfl := List.forall₂_nil_left_iff.mp hnil
  obtain ⟨m, _, hm, hnil, rfl⟩ := hmethods
  obtain rfl := List.forall₂_nil_left_iff.mp hnil
  exact ⟨hreachable, hdistinct, by decide +kernel, hsuper, ⟨f, hfs, hf.type.trans hfieldType⟩,
    m, hms, hm.parameterTypes.trans hparameterTypes, hm.returnType.trans hreturn⟩

end Shape

end JvmTypes
