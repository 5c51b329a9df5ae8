import JvmTypes.Proofs.Assignability
import JvmTypes.Proofs.Members.Regularity
import JvmTypes.Proofs.Method.KeptVariables
/-!
# Views narrow erasures

If what is bound to the variables of the classes stands in a relation to their erasures, then so
does every erased type of a view to the declared one, the recomputed erasures of a method's own
variables among them. With arguments that keep to the bounds the relation is assignability: a view
never shows a wider type than the declaration.
-/
namespace JvmTypes

open TypeVarDecl

namespace Substitution

/-- `R` holds between the erasure of a variable in scope and that of what the variable becomes. It
holds where nothing changes, and of arrays if it holds of their components. -/
structure Relates (R : Erased → Erased → Prop) (outer : Scope) (σ : Substitution) : Prop where
  refl : ∀ e, R e e
  array : ∀ d e, R d e → R (.array d) (.array e)
  outer : ∀ symbol v, outer symbol = some v → v.isOfClass = true ∧
    ∀ e ∈ (σ.var v).erasure?, R v.erasure e
  gives : σ.GivesErasures
  erased : ∀ e, σ.erased e = .plain e
  raw : ∀ id, σ.raw id = id

namespace Relates

variable {R : Erased → Erased → Prop} {outer : Scope} {σ : Substitution} (h : σ.Relates R outer)
include h

theorem boundErasure {own : String → Erased} {t : Shape} {e : Erased} (he : t.erasure? = some e)
    (hown : ∀ v ∈ t.core?, v.source = .method → R v.erasure (own v.symbol))
    (houter : ∀ v ∈ t.core?, v.source ≠ .method → outer v.symbol = some v) :
    R e (σ.boundErasure own t) := by
  apply relates_boundErasure h.refl h.array h.erased h.raw he
  intro v hv
  rw [Substitution.boundErasure]
  split
  · exact hown v hv ‹_›
  · obtain ⟨e, he⟩ := h.gives.var v ‹_›
    rw [he]
    exact (h.outer v.symbol v (houter v hv ‹_›)).2 e he

theorem reference_cases {d : MethodDecl} (hd : d.Coherent outer) {t : Shape} (ht : t ∈ d.shapes)
    {v : TypeVariable} (hv : v ∈ t.references) :
    (v.source = .method →
      ∃ decl, find? v.symbol d.typeVariables = some decl ∧ v.erasure = decl.erasure) ∧
      (v.source ≠ .method → outer v.symbol = some v) := by
  rcases Method.reference_cases (fun symbol w hw => (h.outer symbol w hw).1)
    ((hd.shapes t ht).references v hv) with ⟨hsource, decl, hdecl, hv⟩ | ⟨hclass, _, houter⟩
  · exact ⟨fun _ => ⟨decl, hdecl, congrArg TypeVariable.erasure hv⟩, fun hne => absurd hsource hne⟩
  · refine ⟨?_, fun _ => houter⟩
    intro hsource
    simp [TypeVariable.isOfClass, hsource] at hclass

theorem boundErasure_of_mem {d : MethodDecl} (hd : d.Coherent outer) {own : String → Erased}
    {t : Shape} (ht : t ∈ d.shapes) {e : Erased} (he : t.erasure? = some e)
    (hown : ∀ v ∈ t.core?, v.source = .method → ∀ decl,
      find? v.symbol d.typeVariables = some decl → R decl.erasure (own v.symbol)) :
    R e (σ.boundErasure own t) := by
  refine h.boundErasure he ?_ ?_
  · intro v hv hsource
    obtain ⟨decl, hdecl, herasure⟩ :=
      (h.reference_cases hd ht (Shape.mem_references_of_core? hv)).1 hsource
    rw [herasure]
    exact hown v hv hsource decl hdecl
  · intro v hv
    exact (h.reference_cases hd ht (Shape.mem_references_of_core? hv)).2

theorem ownErasure {d : MethodDecl} (hd : d.Coherent outer) {symbol : String} {v : TypeVarDecl}
    (hv : find? symbol d.typeVariables = some v) :
    R v.erasure (σ.ownErasure d.typeVariables symbol) := by
  have hground := hd.grounded symbol
  induction hground generalizing v with
  | @intro symbol _ ih =>
    rw [ownErasure_eq (hd.grounded symbol), hv, Option.bind_some, TypeVarDecl.erasure]
    cases hb : v.bounds.head? with
    | none => exact h.refl _
    | some b =>
      have hmem : b ∈ d.shapes :=
        Method.mem_shapes_of_bound (List.mem_of_find?_eq_some hv) (List.mem_of_mem_head? hb)
      have hbound : (find? symbol d.typeVariables).bind (·.bounds.head?) = some b := by
        rw [hv, Option.bind_some, hb]
      obtain ⟨e, he⟩ := Shape.erasure?_of_isRegular (hd.shapes b hmem).regular
      rw [Option.bind_some, he]
      apply h.boundErasure_of_mem hd hmem he
      intro w hw hsource decl hdecl
      exact ih w.symbol (next?_of_bound hbound hw hsource) hdecl

theorem see {d : MethodDecl} (hd : d.Coherent outer) {t : Shape} (ht : t ∈ d.shapes) :
    ∃ e e', t.erasure? = some e ∧ (t.subst (σ.retaining d.typeVariables)).erasure? = some e' ∧
      R e e' := by
  have hregular := (hd.shapes t ht).regular
  obtain ⟨e, he⟩ := Shape.erasure?_of_isRegular hregular
  refine ⟨e, _, he, Method.erasure?_retaining h.gives hregular, ?_⟩
  exact h.boundErasure_of_mem hd ht he fun _ _ _ _ hdecl => h.ownErasure hd hdecl

theorem subst {t : Shape} (ht : t.WellFormed fun v => outer v.symbol = some v) :
    ∃ e e', t.erasure? = some e ∧ (t.subst σ).erasure? = some e' ∧ R e e' := by
  have hforeign : ∀ v ∈ t.references, v.source ≠ .method := by
    intro v hv hsource
    have hclass := (h.outer v.symbol v (ht.references v hv)).1
    simp [TypeVariable.isOfClass, hsource] at hclass
  have hkept : t.subst (σ.retaining []) = t.subst σ :=
    (keeps_retaining σ [] t).1.eq_of_foreign hforeign
  obtain ⟨e, he⟩ := Shape.erasure?_of_isRegular ht.regular
  refine ⟨e, _, he, hkept ▸ Method.erasure?_retaining h.gives ht.regular, h.boundErasure he ?_ ?_⟩
  · intro v hv hsource
    exact absurd hsource (hforeign v (Shape.mem_references_of_core? hv))
  · intro v hv _
    exact ht.references v (Shape.mem_references_of_core? hv)

end Relates

end Substitution

namespace Binding

variable {s : Store} {b : Binding}

def argumentErasure? : Shape → Option Erased
  | .upper bound => bound.erasure?
  | .lower _ => some .object
  | a => a.erasure?

theorem erasure?_collapse (a : Shape) : (collapse a).erasure? = argumentErasure? a := by
  cases a <;> rfl

/-- Every argument is assignable, by its erasure, to the variable it is bound to. -/
def IsWithinBounds (s : Store) (b : Binding) : Prop :=
  ∀ id symbol v a, Scope.declaredBy s id symbol = some v → b.get? id symbol = some a →
    ∀ e ∈ argumentErasure? a, v.erasure.isAssignable s e = true

theorem isWithinBounds_of_entries
    (h : ∀ entry ∈ b.entries, ∀ v ∈ Scope.declaredBy s entry.1.1 entry.1.2,
      ∀ e ∈ argumentErasure? entry.2, v.erasure.isAssignable s e = true) : b.IsWithinBounds s := by
  intro id symbol v a hv ha
  obtain ⟨entry, hentry, rfl⟩ := Option.map_eq_some_iff.mp ha
  have hkey : entry.1 = (id, symbol) := by simpa using List.find?_some hentry
  refine h entry (List.mem_reverse.mp (List.mem_of_find?_eq_some hentry)) v ?_
  rw [hkey]
  exact hv

theorem relates_of_isWithinBounds {P : Shape} (hP : P.isRegular = true)
    (h : (ofShape s P).IsWithinBounds s) (C : ClassId) :
    (ofShape s P).toSubstitution.Relates (fun d e => d.isAssignable s e = true)
      (Scope.ofClass s C) where
  refl := Erased.isAssignable_refl s
  array d e := Erased.isAssignable_array.mpr
  outer symbol v hv := by
    refine ⟨Scope.isOfClass_of_ofClass hv, ?_⟩
    obtain ⟨id, hsource, rfl, hdeclared⟩ := Scope.declaredBy_of_ofClass hv
    intro e he
    cases ha : (ofShape s P).lookup? v with
    | none =>
      rw [var_eq_self _ ha] at he
      obtain rfl := Option.some.inj he
      exact Erased.isAssignable_refl s _
    | some a =>
      rw [var_eq _ ha, erasure?_collapse] at he
      rw [lookup?, hsource] at ha
      exact h id v.symbol v a hdeclared ha e he
  gives := givesErasures hP
  erased _ := rfl
  raw _ := rfl

end Binding

namespace Shape

open Substitution

variable {st : Loader.State} {C : ClassId} {as : List Shape} {o : Option Shape}

/-- Both types have erasures, and that of `seen` is assignable to that of `declared`. -/
def ErasesWithin (s : Store) (declared seen : Shape) : Prop :=
  ∃ e e', declared.erasure = .ok e ∧ seen.erasure = .ok e' ∧ e.isAssignable s e' = true

theorem erasesWithin_of_erasure? {s : Store} {declared seen : Shape}
    (h : ∃ e e', declared.erasure? = some e ∧ seen.erasure? = some e' ∧
      e.isAssignable s e' = true) : declared.ErasesWithin s seen := by
  obtain ⟨e, e', he, he', hassign⟩ := h
  exact ⟨e, e', erasure_eq he, erasure_eq he', hassign⟩

theorem fields_applied (s : Store) (raw : ClassId) (as : List Shape) (o : Option Shape) :
    (applied raw as o).fields s = .ok (((s.get raw).fields.map (Field.ofDecl raw)).map fun f =>
      f.through (.applied raw as o) (Binding.ofShape s (.applied raw as o)).toSubstitution) := rfl

theorem methods_applied (s : Store) (raw : ClassId) (as : List Shape) (o : Option Shape) :
    (applied raw as o).methods s = .ok ((Method.declaredBy s raw).map fun m =>
      m.through (.applied raw as o) (Binding.ofShape s (.applied raw as o)).toSubstitution) := rfl

/-- Seen through a type whose arguments keep to the bounds of the variables, every field and method
has erased types that are assignable to the declared ones. -/
theorem view_narrows_erasures (h : Loader.Reachable st)
    (hdistinct : (st.store.get C).HasDistinctParameters)
    (hregular : (applied C as o).isRegular = true)
    (hbounds : (Binding.ofShape st.store (.applied C as o)).IsWithinBounds st.store) :
    (∃ fs, (applied C as o).fields st.store = .ok fs ∧
      List.Forall₂ (fun declared f => declared.type.ErasesWithin st.store f.type)
        ((st.store.get C).fields.map (Field.ofDecl C)) fs) ∧
    ∃ ms, (applied C as o).methods st.store = .ok ms ∧
      List.Forall₂ (fun declared m =>
          declared.returnType.ErasesWithin st.store m.returnType ∧
          List.Forall₂ (ErasesWithin st.store) declared.parameterTypes m.parameterTypes)
        (Method.declaredBy st.store C) ms := by
  have hcoherent := h.coherent_get hdistinct
  have hrelates := Binding.relates_of_isWithinBounds hregular hbounds C
  refine ⟨⟨_, fields_applied _ _ _ _, ?_⟩, _, methods_applied _ _ _ _, ?_⟩
  · apply forall₂_map_self
    intro f hf
    obtain ⟨d, hd, rfl⟩ := List.mem_map.mp hf
    have hmem : d.type ∈ (st.store.get C).shapes :=
      List.mem_append_right _ (List.mem_map.mpr ⟨d, hd, rfl⟩)
    exact erasesWithin_of_erasure? (hrelates.subst (hcoherent.wellFormed hmem))
  · apply forall₂_map_self
    intro m hm
    obtain ⟨d, hd, rfl⟩ := List.mem_map.mp hm
    have hsee : ∀ t ∈ d.shapes, t.ErasesWithin st.store (t.subst _) := fun t ht =>
      erasesWithin_of_erasure? (hrelates.see (hcoherent.method hd) ht)
    refine ⟨hsee d.returnType Method.mem_shapes_of_returnType, ?_⟩
    refine List.forall₂_map_left_iff.mpr (forall₂_map_self fun p hp => ?_)
    exact hsee p.type (Method.mem_shapes_of_parameter hp)

/-- `<T extends E> T[] swap(T[], E)` of the class `Rack<E extends Serializable>`. -/
def swapStub : MethodStub where
  name := "swap"
  descriptor := "([Ljava/io/Serializable;Ljava/io/Serializable;)[Ljava/io/Serializable;"
  signature := some "<T:TE;>([TT;TE;)[TT;"
  flags := .empty
  exceptions := []
  annotations := []
  defaultValue := none
  parameters := []

def rackStub : ClassStub where
  name := "p.Rack"
  flags := .empty
  superclass := some "java.lang.Object"
  interfaces := []
  signature := some "<E::Ljava/io/Serializable;>Ljava/lang/Object;"
  declaring := none
  annotations := []
  fields := [⟨"items", "[Ljava/io/Serializable;", some "[TE;", .empty, []⟩]
  methods := [swapStub]

def rackState : Loader.State :=
  (Loader.load (fun name => if name = "p.Rack" then some rackStub else none) {} "p.Rack"
    { store := .initial }).2

/-- `Rack<? extends String>`. -/
def stringRack : Shape := .applied ⟨14⟩ [.upper (.ofClass .string)] none

theorem string_rack_narrows_swap :
    Loader.Reachable rackState ∧ (rackState.store.get ⟨14⟩).HasDistinctParameters ∧
    stringRack.isRegular = true ∧
    (Binding.ofShape rackState.store stringRack).IsWithinBounds rackState.store ∧
    (∃ fs, stringRack.fields rackState.store = .ok fs ∧
      fs.map (·.type.erasure?) = [some (.array (.cls .string))] ∧
      List.Forall₂ (fun declared f => declared.type.ErasesWithin rackState.store f.type)
        ((rackState.store.get ⟨14⟩).fields.map (Field.ofDecl ⟨14⟩)) fs) ∧
    ∃ ms, stringRack.methods rackState.store = .ok ms ∧
      ms.map (·.returnType.erasure?) = [some (.array (.cls .string))] ∧
      List.Forall₂ (fun declared m =>
          declared.returnType.ErasesWithin rackState.store m.returnType ∧
          List.Forall₂ (ErasesWithin rackState.store) declared.parameterTypes m.parameterTypes)
        (Method.declaredBy rackState.store ⟨14⟩) ms := by
  have hreachable : Loader.Reachable rackState :=
    (Loader.Supplied.single rackStub {} "p.Rack").reachable
  have hdistinct : (rackState.store.get ⟨14⟩).HasDistinctParameters := by decide +kernel
  have hregular : stringRack.isRegular = true := by decide
  have hbounds : (Binding.ofShape rackState.store stringRack).IsWithinBounds rackState.store :=
    Binding.isWithinBounds_of_entries (by decide +kernel)
  have hitems : (stringRack.fields rackState.store).map (List.map (·.type.erasure?)) =
      .ok [some (.array (.cls .string))] := by decide +kernel
  have hswap : (stringRack.methods rackState.store).map (List.map (·.returnType.erasure?)) =
      .ok [some (.array (.cls .string))] := by decide +kernel
  obtain ⟨⟨fs, hfs, hfields⟩, ms, hms, hmethods⟩ :=
    view_narrows_erasures hreachable hdistinct hregular hbounds
  rw [← stringRack] at hfs hms
  rw [hfs] at hitems
  rw [hms] at hswap
  exact ⟨hreachable, hdistinct, hregular, hbounds, ⟨fs, hfs, Except.ok.inj hitems, hfields⟩,
    ms, hms, Except.ok.inj hswap, hmethods⟩

end Shape

end JvmTypes
