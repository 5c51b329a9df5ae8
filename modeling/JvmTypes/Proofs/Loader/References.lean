import JvmTypes.Proofs.Loader.Reachable
import JvmTypes.Proofs.Method.Views
/-!
# References in loaded declarations

A reference in a loaded declaration is to a variable of the method it stands in, or else to the
variable that the scope of the class yields. It carries the erasure of the declaration of that
variable, though it was made before the declaration was complete.
-/
namespace JvmTypes

/-- The declaration of a variable that is referred to inside class `id`, in sight of the type
parameters `own` of a method. Where no method is around, `own` is empty. -/
inductive TypeVariable.Declared (s : Store) (id : ClassId) (own : List TypeVarDecl) :
    TypeVariable → Prop
  | byMethod {v : TypeVariable} {d : TypeVarDecl} (hsource : v.source = .method)
      (hdecl : TypeVarDecl.find? v.symbol own = some d) (herasure : v.erasure = d.erasure) :
      Declared s id own v
  | byClass {v : TypeVariable} {owner : ClassId} {d : TypeVarDecl}
      (hsource : v.source = .type owner)
      (hfree : TypeVarDecl.find? v.symbol own = none)
      (hscope : Scope.ofClass s id v.symbol = some v)
      (hdecl : TypeVarDecl.find? v.symbol (s.get owner).typeVariables = some d)
      (herasure : v.erasure = d.erasure) : Declared s id own v

variable {s : Store} {id : ClassId} {own : List TypeVarDecl} {v : TypeVariable}

theorem TypeVariable.declared_of_ofClass (hfree : TypeVarDecl.find? v.symbol own = none)
    (hscope : Scope.ofClass s id v.symbol = some v) : v.Declared s id own := by
  have hfound := hscope
  rw [Scope.ofClass_eq] at hfound
  obtain ⟨⟨owner, d⟩, hfound, hv⟩ := Option.map_eq_some_iff.mp hfound
  have hdecl := Store.find?_of_findVariable? hfound
  exact .byClass (by rw [← hv]; rfl) hfree hscope hdecl (by rw [← hv]; rfl)

theorem MethodDecl.declared_of_scopeIn {m : MethodDecl}
    (hv : m.scopeIn (Scope.ofClass s id) v.symbol = some v) : v.Declared s id m.typeVariables := by
  rcases Method.reference_cases (fun _ _ => Scope.isOfClass_of_ofClass) hv with
    ⟨hsource, d, hdecl, hvd⟩ | ⟨_, hfree, hscope⟩
  · exact .byMethod hsource hdecl (by rw [hvd])
  · exact TypeVariable.declared_of_ofClass hfree hscope

theorem TypeVariable.Declared.isDetached (h : v.Declared s id own) : v.isDetached = false := by
  cases h with
  | byMethod hsource => simp [TypeVariable.isDetached, hsource]
  | byClass hsource => simp [TypeVariable.isDetached, hsource]

theorem ClassDecl.Coherent.declared (h : (s.get id).Coherent s id) {t : Shape}
    (ht : t ∈ (s.get id).shapes) (hv : v ∈ t.references) : v.Declared s id [] :=
  TypeVariable.declared_of_ofClass rfl ((h.wellFormed ht).references v hv)

theorem ClassDecl.Coherent.declared_method (h : (s.get id).Coherent s id) {m : MethodDecl}
    (hm : m ∈ (s.get id).methods) {t : Shape} (ht : t ∈ m.shapes) (hv : v ∈ t.references) :
    v.Declared s id m.typeVariables :=
  MethodDecl.declared_of_scopeIn (((h.method hm).shapes t ht).references v hv)

namespace Loader

/-- In all that loading leads to no reference is detached, and every reference agrees in source and
erasure with the declaration of its variable. -/
theorem references_of_loaded {st : State} (h : Reachable st) {id : ClassId}
    (hdistinct : (st.store.get id).HasDistinctParameters) :
    (∀ t ∈ (st.store.get id).shapes, ∀ v ∈ t.references,
      v.isDetached = false ∧ v.Declared st.store id []) ∧
    ∀ m ∈ (st.store.get id).methods, ∀ t ∈ m.shapes, ∀ v ∈ t.references,
      v.isDetached = false ∧ v.Declared st.store id m.typeVariables := by
  have hcoherent := h.coherent_get hdistinct
  refine ⟨?_, ?_⟩
  · intro t ht v hv
    have hdeclared := hcoherent.declared ht hv
    exact ⟨hdeclared.isDetached, hdeclared⟩
  · intro m hm t ht v hv
    have hdeclared := hcoherent.declared_method hm ht hv
    exact ⟨hdeclared.isDetached, hdeclared⟩

/-- `<T extends R> R put(T, Shelf<? super E>)`. -/
def putStub : MethodStub where
  name := "put"
  descriptor := "(Ljava/lang/Comparable;Lq/Shelf;)Ljava/lang/Comparable;"
  signature := some "<T:TR;>(TT;Lq/Shelf<-TE;>;)TR;"
  flags := .empty
  exceptions := []
  annotations := []
  defaultValue := none
  parameters := []

/-- `Row<R extends E>`, an inner class of `Shelf<E extends Comparable<E>>`. -/
def rowStub : ClassStub where
  name := "q.Shelf$Row"
  flags := .empty
  superclass := some "java.lang.Object"
  interfaces := []
  signature := some "<R:TE;>Ljava/lang/Object;"
  declaring := some "q.Shelf"
  annotations := []
  fields := []
  methods := [putStub]

def shelfStub : ClassStub where
  name := "q.Shelf"
  flags := .empty
  superclass := some "java.lang.Object"
  interfaces := []
  signature := some "<E::Ljava/lang/Comparable<TE;>;>Ljava/lang/Object;"
  declaring := none
  annotations := []
  fields := []
  methods := []

def shelfSource : Source := fun name =>
  if name = "q.Shelf" then some shelfStub
  else if name = "q.Shelf$Row" then some rowStub else none

theorem faithful_shelfSource : Faithful shelfSource := by
  intro name stub h
  unfold shelfSource at h
  split at h
  · rename_i hname
    obtain rfl := Option.some.inj h
    exact hname.symm
  · split at h
    · rename_i hname
      obtain rfl := Option.some.inj h
      exact hname.symm
    · cases h

def shelfState : State := (load shelfSource {} "q.Shelf$Row" { store := .initial }).2

/-- `Row` refers to the variable of the class around it, its method to that, to the one of `Row` and
to its own. All have the erasure of `Comparable`. -/
theorem references_of_row :
    let row := shelfState.store.get ⟨14⟩
    Reachable shelfState ∧ row.HasDistinctParameters ∧
    row.shapes.flatMap (·.references) = [⟨"E", .type ⟨15⟩, .cls ⟨16⟩⟩] ∧
    row.methods.flatMap (fun m => m.shapes.flatMap (·.references)) =
      [⟨"R", .type ⟨14⟩, .cls ⟨16⟩⟩, ⟨"R", .type ⟨14⟩, .cls ⟨16⟩⟩, ⟨"T", .method, .cls ⟨16⟩⟩,
        ⟨"E", .type ⟨15⟩, .cls ⟨16⟩⟩] ∧
    (∀ t ∈ row.shapes, ∀ v ∈ t.references,
      v.isDetached = false ∧ v.Declared shelfState.store ⟨14⟩ []) ∧
    ∀ m ∈ row.methods, ∀ t ∈ m.shapes, ∀ v ∈ t.references,
      v.isDetached = false ∧ v.Declared shelfState.store ⟨14⟩ m.typeVariables := by
  have hreachable : Reachable shelfState := .load shelfSource {} "q.Shelf$Row" faithful_shelfSource
    .start
  have hdistinct : (shelfState.store.get ⟨14⟩).HasDistinctParameters := by decide +kernel
  exact ⟨hreachable, hdistinct, by decide +kernel, by decide +kernel,
    references_of_loaded hreachable hdistinct⟩

end Loader

end JvmTypes
