import JvmTypes.Proofs.Method.Reattachment
import JvmTypes.Proofs.Scope.Search
/-!
# When a token attaches

A token attaches to a class exactly if the token or a class around that class declares every symbol
that stands detached in it. Otherwise the first symbol that nobody declares is the error. What
attaches has the attributes of the token, with every symbol bound and the class in place of the
stand-in.
-/
namespace JvmTypes

open Substitution

/-- What a scope makes of a reference. One to a symbol that the scope does not know stays. -/
def Scope.resolve (scope : Scope) (v : TypeVariable) : TypeVariable :=
  if v.isDetached then (scope v.symbol).getD v else v

theorem Scope.resolve_of_none {scope : Scope} {v : TypeVariable} (h : scope v.symbol = none) :
    scope.resolve v = v := by
  rw [resolve, h, Option.getD_none, ite_self]

theorem Scope.isDetached_resolve {scope : Scope}
    (hbound : ∀ symbol v, scope symbol = some v → v.isDetached = false) (v : TypeVariable) :
    (scope.resolve v).isDetached = (v.isDetached && (scope v.symbol).isNone) := by
  cases hd : v.isDetached with
  | false => rw [resolve, hd, if_neg Bool.false_ne_true, hd, Bool.false_and]
  | true =>
    cases hs : scope v.symbol with
    | none => rw [resolve_of_none hs, hd, Option.isNone_none, Bool.and_self]
    | some w => rw [resolve, if_pos hd, hs, Option.getD_some, hbound _ w hs]; rfl

theorem Substitution.attachingIn_var_eq (scope : Scope) (declaring : ClassId) (v : TypeVariable) :
    (attachingIn scope declaring).var v = .variable (scope.resolve v) := by
  cases hd : v.isDetached with
  | false => simp [attachingIn, attaching, Scope.resolve, hd]
  | true => cases hs : scope v.symbol <;> simp [attachingIn, attaching, Scope.resolve, hd, hs]

namespace Shape

/-- The shape in the class `owner`: `means` says what its references become, and the class stands
where the stand-in was. -/
inductive Attaches (means : TypeVariable → TypeVariable → Prop) (owner : ClassId) :
    Shape → Shape → Prop
  | plain (e : Erased) : Attaches means owner (.plain e) (.plain (e.replaceClass .target owner))
  | array {c c' : Shape} (h : Attaches means owner c c') :
      Attaches means owner (.array c) (arrayOf c')
  | applied {raw : ClassId} {as as' : List Shape} {o o' : Option Shape}
      (has : List.Forall₂ (Attaches means owner) as as')
      (ho : Option.Rel (Attaches means owner) o o') :
      Attaches means owner (.applied raw as o)
        (.applied (if raw = .target then owner else raw) as' o')
  | upper {b b' : Shape} (h : Attaches means owner b b') :
      Attaches means owner (.upper b) (.upper b')
  | lower {b b' : Shape} (h : Attaches means owner b b') :
      Attaches means owner (.lower b) (.lower b')
  | reference {v w : TypeVariable} (h : means v w) :
      Attaches means owner (.variable v) (.variable w)

theorem attaches_subst {means : TypeVariable → TypeVariable → Prop} {scope : Scope}
    {owner : ClassId} {t : Shape} (h : ∀ v ∈ t.references, means v (scope.resolve v)) :
    Attaches means owner t (t.subst (attachingIn scope owner)) := by
  induction t with
  | plain e => exact .plain e
  | array c ih => exact .array (ih h)
  | applied raw as o has ho =>
    simp only [mem_references_applied] at h
    rw [subst_applied]
    refine .applied ?_ ?_
    · apply forall₂_map_self
      intro a ha
      rw [onArgument_of_isUniform fun _ => rfl]
      exact has a ha fun v hv => h v (Or.inr ⟨a, ha, hv⟩)
    · cases o with
      | none => exact .none
      | some p => exact .some (ho p rfl fun v hv => h v (Or.inl ⟨p, rfl, hv⟩))
  | upper b ih => exact .upper (ih h)
  | lower b ih => exact .lower (ih h)
  | reference v =>
    rw [subst_reference, attachingIn_var_eq]
    exact .reference (h v (by simp))

end Shape

namespace MethodToken

variable {s : Store} {owner : ClassId} {t : MethodToken} {v : TypeVariable} {symbol : String}

def references (t : MethodToken) : List TypeVariable := t.shapes.flatMap Shape.references

/-- Neither the token declares the symbol nor a class around `owner`. -/
structure IsUnknown (s : Store) (t : MethodToken) (owner : ClassId) (symbol : String) : Prop where
  own : ∀ d ∈ t.typeVariables, d.symbol ≠ symbol
  around : s.SearchEnds symbol owner none

/-- A detached reference to a symbol that is unknown. -/
def IsLost (s : Store) (t : MethodToken) (owner : ClassId) (v : TypeVariable) : Prop :=
  v.isDetached = true ∧ t.IsUnknown s owner v.symbol

/-- The first reference of the token that is lost is one to `symbol`. -/
def LosesFirst (s : Store) (t : MethodToken) (owner : ClassId) (symbol : String) : Prop :=
  ∃ before v after, t.references = before ++ v :: after ∧ t.IsLost s owner v ∧ v.symbol = symbol ∧
    ∀ u ∈ before, ¬ t.IsLost s owner u

/-- What a reference of the token means in the class `owner`. The variables of the token hide those
of the classes. -/
inductive Means (s : Store) (t : MethodToken) (owner : ClassId) :
    TypeVariable → TypeVariable → Prop
  | bound {v : TypeVariable} (hv : v.isDetached = false) : Means s t owner v v
  | own {v : TypeVariable} {d : TypeVarDecl} (hv : v.isDetached = true)
      (hd : TypeVarDecl.find? v.symbol t.typeVariables = some d) :
      Means s t owner v ⟨v.symbol, .method, d.erasure.replaceClass .target owner⟩
  | around {v : TypeVariable} {found : ClassId × TypeVarDecl} (hv : v.isDetached = true)
      (hown : ∀ d ∈ t.typeVariables, d.symbol ≠ v.symbol)
      (hfound : s.SearchEnds v.symbol owner (some found)) : Means s t owner v (.ofFound found)

/-- The method is the token in the class `owner`. -/
structure IsAttachedAs (s : Store) (t : MethodToken) (owner : ClassId) (m : Method) : Prop where
  inClass : m.owner = owner
  declared : m.viewpoint = none
  internalName : m.decl.internalName = t.internalName
  flags : m.decl.flags = t.flags
  typeVariables : List.Forall₂ (fun d d' => d'.symbol = d.symbol ∧
    List.Forall₂ (Shape.Attaches (t.Means s owner) owner) d.bounds d'.bounds)
    t.typeVariables m.decl.typeVariables
  returnType : t.returnType.Attaches (t.Means s owner) owner m.decl.returnType
  parameters : List.Forall₂ (fun p p' => p.type.Attaches (t.Means s owner) owner p'.type ∧
    p'.name = p.name ∧ p'.flags = p.flags) t.parameters m.decl.parameters
  exceptions : List.Forall₂ (Shape.Attaches (t.Means s owner) owner) t.exceptions m.decl.exceptions
  annotations : m.decl.annotations = t.annotations
  defaultValue : m.decl.defaultValue = t.defaultValue

theorem shapes_subst (σ : Substitution) (t : MethodToken) :
    (t.subst σ).shapes = t.shapes.map (Shape.subst σ) := by
  simp [shapes, MethodToken.subst, List.map_flatMap, List.flatMap_map, Function.comp_def]

theorem mem_references {u : Shape} (hu : u ∈ t.shapes) (hv : v ∈ u.references) :
    v ∈ t.references :=
  List.mem_flatMap.mpr ⟨u, hu, hv⟩

theorem find?_eq_none_iff :
    TypeVarDecl.find? symbol t.typeVariables = none ↔ ∀ d ∈ t.typeVariables, d.symbol ≠ symbol := by
  simp [TypeVarDecl.find?]

section Scope

variable (hends : ChainEnds s.enclosing owner)
include hends

theorem scope_eq_none_iff : t.scope s owner symbol = none ↔ t.IsUnknown s owner symbol := by
  obtain ⟨r, hr⟩ := Store.SearchEnds.of_chainEnds hends symbol
  constructor
  · intro hnone
    obtain ⟨hown, _⟩ := Option.or_eq_none_iff.mp hnone
    rw [Option.map_eq_none_iff] at hown
    rw [hr.sees.token t hown, Option.map_eq_none_iff] at hnone
    exact ⟨find?_eq_none_iff.mp hown, hnone ▸ hr⟩
  · intro h
    rw [h.around.sees.token t (find?_eq_none_iff.mpr h.own), Option.map_none]

theorem means_of_scope {w : TypeVariable} (hv : v.isDetached = true)
    (h : t.scope s owner v.symbol = some w) : t.Means s owner v w := by
  cases hown : TypeVarDecl.find? v.symbol t.typeVariables with
  | some d =>
    rw [scope, Scope.orElse, hown, Option.map_some, Option.some_or] at h
    obtain rfl := Option.some.inj h
    rw [Store.symbol_of_find? hown]
    exact .own hv hown
  | none =>
    obtain ⟨r, hr⟩ := Store.SearchEnds.of_chainEnds hends v.symbol
    rw [hr.sees.token t hown] at h
    obtain ⟨found, rfl, rfl⟩ := Option.map_eq_some_iff.mp h
    exact .around hv (find?_eq_none_iff.mp hown) hr

end Scope

theorem isDetached_of_scope {w : TypeVariable} (h : t.scope s owner symbol = some w) :
    w.isDetached = false := by
  rcases Option.or_eq_some_iff.mp h with h | ⟨_, h⟩
  · obtain ⟨d, _, rfl⟩ := Option.map_eq_some_iff.mp h
    rfl
  · obtain ⟨o, ho⟩ := Scope.source_of_ofClass h
    rw [TypeVariable.isDetached, ho]
    rfl

def resolved (s : Store) (t : MethodToken) (owner : ClassId) : MethodToken :=
  t.subst (.attachingIn (t.scope s owner) owner)

theorem references_resolved (s : Store) (t : MethodToken) (owner : ClassId) :
    (t.resolved s owner).references = t.references.map (t.scope s owner).resolve := by
  rw [references, resolved, shapes_subst, List.flatMap_map, references, List.map_flatMap]
  apply List.flatMap_congr
  intro u _
  exact Shape.references_subst_of_renames (fun _ => rfl) (attachingIn_var_eq _ owner)
    (fun _ => rfl) u

theorem detachedSymbols_eq (t : MethodToken) :
    t.detachedSymbols = Shape.symbolsOf t.references := by
  rw [detachedSymbols, references, Shape.symbolsOf_flatMap]
  exact List.flatMap_congr fun u _ => u.detachedSymbols_eq

theorem attach_eq_match (s : Store) (t : MethodToken) (owner : ClassId) :
    t.attach s owner = match (t.resolved s owner).detachedSymbols.head? with
      | none => .ok (.ofDecl owner (t.resolved s owner).toDecl)
      | some symbol => .error (.unresolvedVariable symbol) := by
  rw [attach, ← resolved]
  cases (t.resolved s owner).detachedSymbols <;> rfl

section Attach

variable (hends : ChainEnds s.enclosing owner)
include hends

theorem isDetached_resolve_iff :
    ((t.scope s owner).resolve v).isDetached = true ↔ t.IsLost s owner v := by
  rw [Scope.isDetached_resolve fun _ _ h => isDetached_of_scope h, Bool.and_eq_true,
    Option.isNone_iff_eq_none, scope_eq_none_iff hends, IsLost]

/-- The symbol that is reported is that of the first lost reference. -/
theorem head?_detachedSymbols_iff :
    (t.resolved s owner).detachedSymbols.head? = some symbol ↔ t.LosesFirst s owner symbol := by
  rw [detachedSymbols_eq, references_resolved, Shape.symbolsOf, List.filter_map, List.map_map,
    List.head?_map, List.head?_filter, Option.map_eq_some_iff]
  constructor
  · rintro ⟨v, hv, rfl⟩
    obtain ⟨hlost, before, after, hrefs, hbefore⟩ := List.find?_eq_some_iff_append.mp hv
    have hlost : t.IsLost s owner v := (isDetached_resolve_iff hends).mp hlost
    have hkept : (t.scope s owner).resolve v = v :=
      Scope.resolve_of_none ((scope_eq_none_iff hends).mpr hlost.2)
    refine ⟨before, v, after, hrefs, hlost, congrArg TypeVariable.symbol hkept.symm, ?_⟩
    intro u hu hlostu
    have hdetached := (isDetached_resolve_iff hends).mpr hlostu
    simpa [hdetached] using hbefore u hu
  · rintro ⟨before, v, after, hrefs, hlost, rfl, hbefore⟩
    have hkept : (t.scope s owner).resolve v = v :=
      Scope.resolve_of_none ((scope_eq_none_iff hends).mpr hlost.2)
    refine ⟨v, List.find?_eq_some_iff_append.mpr ⟨?_, before, after, hrefs, ?_⟩,
      congrArg TypeVariable.symbol hkept⟩
    · exact (isDetached_resolve_iff hends).mpr hlost
    · intro u hu
      rw [Bool.not_eq_true', ← Bool.not_eq_true]
      exact fun hdetached => hbefore u hu ((isDetached_resolve_iff hends).mp hdetached)

theorem attach_eq_error_iff :
    t.attach s owner = .error (.unresolvedVariable symbol) ↔ t.LosesFirst s owner symbol := by
  rw [← head?_detachedSymbols_iff hends, attach_eq_match]
  cases (t.resolved s owner).detachedSymbols.head? <;> simp

theorem detachedSymbols_resolved_eq_nil_iff :
    (t.resolved s owner).detachedSymbols = [] ↔ ∀ v ∈ t.references, ¬ t.IsLost s owner v := by
  rw [detachedSymbols_eq, references_resolved, Shape.symbolsOf, List.map_eq_nil_iff,
    List.filter_eq_nil_iff, List.forall_mem_map]
  simp only [isDetached_resolve_iff hends]

theorem attach_eq_ok_iff {m : Method} :
    t.attach s owner = .ok m ↔ (∀ v ∈ t.references, ¬ t.IsLost s owner v) ∧
      m = .ofDecl owner (t.resolved s owner).toDecl := by
  rw [← detachedSymbols_resolved_eq_nil_iff hends, attach_eq_match]
  cases (t.resolved s owner).detachedSymbols <;> simp [eq_comm]

theorem exists_losesFirst_iff :
    (∃ symbol, t.LosesFirst s owner symbol) ↔ ∃ v ∈ t.references, t.IsLost s owner v := by
  simp only [← head?_detachedSymbols_iff hends]
  rw [← Option.ne_none_iff_exists', ne_eq, List.head?_eq_none_iff,
    detachedSymbols_resolved_eq_nil_iff hends]
  push Not
  rfl

theorem means_resolve (h : ¬ t.IsLost s owner v) :
    t.Means s owner v ((t.scope s owner).resolve v) := by
  cases hd : v.isDetached with
  | false =>
    rw [Scope.resolve, hd, if_neg Bool.false_ne_true]
    exact .bound hd
  | true =>
    cases hs : t.scope s owner v.symbol with
    | none => exact absurd ⟨hd, (scope_eq_none_iff hends).mp hs⟩ h
    | some w =>
      rw [Scope.resolve, if_pos hd, hs, Option.getD_some]
      exact means_of_scope hends hd hs

theorem isAttachedAs_resolved (h : ∀ v ∈ t.references, ¬ t.IsLost s owner v) :
    t.IsAttachedAs s owner (.ofDecl owner (t.resolved s owner).toDecl) := by
  have hshape : ∀ u ∈ t.shapes, u.Attaches (t.Means s owner) owner
      (u.subst (attachingIn (t.scope s owner) owner)) := by
    intro u hu
    apply Shape.attaches_subst
    intro v hv
    exact means_resolve hends (h v (mem_references hu hv))
  simp only [shapes, List.mem_append, List.mem_flatMap, List.mem_cons, List.mem_map] at hshape
  refine ⟨rfl, rfl, rfl, rfl, ?_, hshape _ (Or.inr (Or.inl rfl)), ?_, ?_, rfl, rfl⟩
  · apply forall₂_map_self
    intro d hd
    exact ⟨rfl, forall₂_map_self fun b hb => hshape b (Or.inl ⟨d, hd, hb⟩)⟩
  · apply forall₂_map_self
    intro p hp
    exact ⟨hshape _ (Or.inr (Or.inr (Or.inl ⟨p, hp, rfl⟩))), rfl, rfl⟩
  · exact forall₂_map_self fun e he => hshape e (Or.inr (Or.inr (Or.inr he)))

theorem isDetached_resolved (h : ∀ v ∈ t.references, ¬ t.IsLost s owner v) :
    ∀ v ∈ (t.resolved s owner).references, v.isDetached = false := by
  rw [references_resolved, List.forall_mem_map]
  intro v hv
  rw [← Bool.not_eq_true, isDetached_resolve_iff hends]
  exact h v hv

/-- A token does not attach to a class where it loses a reference, and the error is the symbol of
the first one. To every other class it attaches as what it says, with nothing detached left. -/
theorem attach_fails_iff_unknown (t : MethodToken) :
    ((∃ symbol, t.attach s owner = .error (.unresolvedVariable symbol)) ↔
      ∃ v ∈ t.references, t.IsLost s owner v) ∧
    (∀ symbol, t.attach s owner = .error (.unresolvedVariable symbol) ↔
      t.LosesFirst s owner symbol) ∧
    ((∃ m, t.attach s owner = .ok m) ↔ ∀ v ∈ t.references, ¬ t.IsLost s owner v) ∧
    ∀ m, t.attach s owner = .ok m → t.IsAttachedAs s owner m ∧
      ∀ u ∈ m.shapes, ∀ v ∈ u.references, v.isDetached = false := by
  refine ⟨?_, fun symbol => attach_eq_error_iff hends, ⟨?_, ?_⟩, ?_⟩
  · simp only [attach_eq_error_iff hends]
    exact exists_losesFirst_iff hends
  · rintro ⟨m, hm⟩
    exact ((attach_eq_ok_iff hends).mp hm).1
  · exact fun h => ⟨_, (attach_eq_ok_iff hends).mpr ⟨h, rfl⟩⟩
  · intro m hm
    obtain ⟨h, rfl⟩ := (attach_eq_ok_iff hends).mp hm
    refine ⟨isAttachedAs_resolved hends h, ?_⟩
    rw [Method.shapes_ofDecl]
    intro u hu v hv
    exact isDetached_resolved hends h v (List.mem_flatMap.mpr ⟨u, hu, hv⟩)

end Attach

def chainAndLink : List ClassDecl :=
  [ { name := "p.Chain", flags := .empty, typeVariables := [⟨"E", []⟩],
      superclass := some .object },
    { name := "p.Chain$Link", flags := .empty, superclass := some .object,
      declaring := some ⟨14⟩ } ]

def chainStore : Store := ⟨(Store.seeds ++ chainAndLink).toArray⟩

/-- The token of `<T extends E> Chain<E> link(T)`. -/
def linkToken : MethodToken where
  internalName := "link"
  flags := .empty
  typeVariables := [⟨"T", [.variable ⟨"E", .detached, .object⟩]⟩]
  returnType := .applied ⟨14⟩ [.variable ⟨"E", .detached, .object⟩] none
  parameters := [{ type := .variable ⟨"T", .detached, .object⟩ }]
  exceptions := []
  annotations := []
  defaultValue := none

theorem link_attaches_inside_chain_only :
    ChainEnds chainStore.enclosing ⟨15⟩ ∧ ChainEnds chainStore.enclosing .object ∧
    (∃ m, linkToken.attach chainStore ⟨15⟩ = .ok m ∧ linkToken.IsAttachedAs chainStore ⟨15⟩ m ∧
      ∀ u ∈ m.shapes, ∀ v ∈ u.references, v.isDetached = false) ∧
    linkToken.attach chainStore .object = .error (.unresolvedVariable "E") ∧
    linkToken.LosesFirst chainStore .object "E" := by
  have hinside : ChainEnds chainStore.enclosing ⟨15⟩ := ⟨2, by decide +kernel⟩
  have houtside : ChainEnds chainStore.enclosing .object := ⟨1, by decide +kernel⟩
  have hattach : ∀ v ∈ linkToken.references, ¬ linkToken.IsLost chainStore ⟨15⟩ v := by
    simp only [← isDetached_resolve_iff hinside]
    decide +kernel
  have hlost : linkToken.LosesFirst chainStore .object "E" := by
    rw [← head?_detachedSymbols_iff houtside]
    decide +kernel
  obtain ⟨_, _, hok, hattached⟩ := attach_fails_iff_unknown hinside linkToken
  obtain ⟨_, herror, _⟩ := attach_fails_iff_unknown houtside linkToken
  obtain ⟨m, hm⟩ := hok.mpr hattach
  exact ⟨hinside, houtside, ⟨m, hm, hattached m hm⟩, (herror "E").mpr hlost, hlost⟩

end MethodToken

end JvmTypes
