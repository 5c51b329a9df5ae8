import JvmTypes.Proofs.Assignability
import JvmTypes.Proofs.Loader.SuperChains
import JvmTypes.Proofs.Method.Reattachment
/-!
# Raw hierarchies

The hierarchy of an applied class binds new arguments at every step, that of the bare class shows
each super type as it is declared. Both go through the same classes, and all of these are found by
the search for super classes that decides assignability.
-/
namespace JvmTypes

theorem Store.Rooted.class?_of_superclass {s : Store} (hs : s.Rooted) {id : ClassId} {t : Shape}
    (ht : (s.get id).superclass = some t) : ∃ c, t.class? = some c := by
  by_cases hid : id.index < s.size
  · obtain ⟨c, hc, _⟩ := hs.closed id hid t ht
    exact ⟨c, hc⟩
  · rw [Store.get_of_size_le (not_lt.mp hid)] at ht
    obtain rfl := Option.some.inj ht
    exact ⟨.object, rfl⟩

namespace Shape

theorem erasure?_of_class? {t : Shape} {id : ClassId} (h : t.class? = some id) :
    t.erasure? = some (.cls id) := by
  cases t with
  | plain e =>
    cases e with
    | cls c =>
      obtain rfl := Option.some.inj h
      rfl
    | void | primitive b | array c => cases h
  | applied raw as o =>
    obtain rfl := Option.some.inj h
    rfl
  | array c | upper b | lower b | «variable» v => cases h

def SameAncestor (s : Store) (source : ClassId) (t u : Shape) : Prop :=
  ∃ c, t.class? = some c ∧ u.class? = some c ∧ s.Reaches source c

section Walks

variable {s : Store} (hs : s.Rooted) {t u : Shape} {source : ClassId}
include hs

/-- One step keeps two walks together, whatever either of them has bound. -/
theorem SameAncestor.parents (h : SameAncestor s source t u) :
    (t.parent? s = none ∧ u.parent? s = none) ∨
      ∃ p q, t.parent? s = some p ∧ u.parent? s = some q ∧ SameAncestor s source p q := by
  obtain ⟨id, ht, hu, hreach⟩ := h
  obtain ⟨bound, htparent⟩ := parent?_of_class? (s := s) ht
  obtain ⟨bound', huparent⟩ := parent?_of_class? (s := s) hu
  cases hsuper : (s.get id).superclass with
  | none =>
    rw [hsuper, Option.map_none] at htparent huparent
    exact Or.inl ⟨htparent, huparent⟩
  | some d =>
    obtain ⟨c, hc⟩ := hs.class?_of_superclass hsuper
    rw [hsuper, Option.map_some] at htparent huparent
    refine Or.inr ⟨_, _, htparent, huparent, c, ?_, ?_, ?_⟩
    · exact class?_seenThrough bound hc
    · exact class?_seenThrough bound' hc
    · exact hreach.tail (.superclass hsuper (erasure?_of_class? hc))

theorem SameAncestor.hierarchies (h : SameAncestor s source t u) (n : Nat) :
    List.Forall₂ (SameAncestor s source) (t.hierarchy s n) (u.hierarchy s n) := by
  induction n generalizing t u with
  | zero => exact .nil
  | succ n ih =>
    rw [hierarchy, hierarchy]
    rcases h.parents hs with ⟨ht, hu⟩ | ⟨p, q, ht, hu, hparents⟩
    · rw [ht, hu]
      exact .cons h .nil
    · rw [ht, hu]
      exact .cons h (ih hparents)

end Walks

/-- Whatever a class is applied to, its hierarchy has as many types as that of the bare class, and
the two show the same erasures, each assignable from the class. -/
theorem applied_hierarchy_refines_raw {st : Loader.State} (h : Loader.Reachable st) (C : ClassId)
    (as : List Shape) (o : Option Shape) (n k : Nat) :
    (((applied C as o).hierarchy st.store n)[k]?.isSome ↔
      ((ofClass C).hierarchy st.store n)[k]?.isSome) ∧
    ∀ t ∈ ((applied C as o).hierarchy st.store n)[k]?,
      ∀ u ∈ ((ofClass C).hierarchy st.store n)[k]?,
        ∃ e, t.erasure = .ok e ∧ u.erasure = .ok e ∧ e.isAssignable st.store (.cls C) = true := by
  have hstart : SameAncestor st.store C (applied C as o) (ofClass C) := ⟨C, rfl, rfl, .refl⟩
  have hwalks := hstart.hierarchies h.rooted n
  refine ⟨by simp [hwalks.length_eq], ?_⟩
  intro t ht u hu
  obtain ⟨hk, rfl⟩ := List.getElem?_eq_some_iff.mp ht
  obtain ⟨hk', rfl⟩ := List.getElem?_eq_some_iff.mp hu
  obtain ⟨c, htclass, huclass, hreach⟩ := hwalks.get hk hk'
  exact ⟨.cls c, erasure_eq (erasure?_of_class? htclass), erasure_eq (erasure?_of_class? huclass),
    Erased.isAssignable_class.mpr (Or.inr hreach)⟩

/-- `Coil<T>`, which extends `Spring<T[]>`, and `Spring<U>`. -/
def coilSource : Loader.Source :=
  Loader.ofStubs [
    { Loader.bareStub "p.Coil" with signature := some "<T:Ljava/lang/Object;>Lp/Spring<[TT;>;" },
    { Loader.bareStub "p.Spring" with
      signature := some "<U:Ljava/lang/Object;>Ljava/lang/Object;" }]

def coilState : Loader.State := (Loader.load coilSource {} "p.Coil" { store := .initial }).2

def superStringCoil : Shape := .applied ⟨14⟩ [.lower (.ofClass .string)] none

/-- `Spring<Object[]>` above the one and `Spring<T[]>` above the other, both from the same class. -/
theorem super_string_coil_refines_raw :
    Loader.Reachable coilState ∧
    superStringCoil.hierarchy coilState.store 4 =
      [superStringCoil, .applied ⟨15⟩ [.plain (.array .object)] none, .object] ∧
    (ofClass ⟨14⟩).hierarchy coilState.store 4 =
      [.ofClass ⟨14⟩, .applied ⟨15⟩ [.array (.variable ⟨"T", .type ⟨14⟩, .object⟩)] none,
        .object] ∧
    ∃ e, (applied ⟨15⟩ [.plain (.array .object)] none).erasure = .ok e ∧
      (applied ⟨15⟩ [.array (.variable ⟨"T", .type ⟨14⟩, .object⟩)] none).erasure = .ok e ∧
      e.isAssignable coilState.store (.cls ⟨14⟩) = true := by
  have hreachable : Loader.Reachable coilState :=
    .load coilSource {} "p.Coil" (Loader.faithful_ofStubs _) .start
  have hgeneric : superStringCoil.hierarchy coilState.store 4 =
      [superStringCoil, .applied ⟨15⟩ [.plain (.array .object)] none, .object] := by
    decide +kernel
  have hraw : (ofClass ⟨14⟩).hierarchy coilState.store 4 =
      [.ofClass ⟨14⟩, .applied ⟨15⟩ [.array (.variable ⟨"T", .type ⟨14⟩, .object⟩)] none,
        .object] := by
    decide +kernel
  obtain ⟨_, hsame⟩ :=
    applied_hierarchy_refines_raw hreachable ⟨14⟩ [.lower (.ofClass .string)] none 4 1
  rw [← superStringCoil, hgeneric, hraw] at hsame
  exact ⟨hreachable, hgeneric, hraw, hsame _ rfl _ rfl⟩

end Shape

end JvmTypes
