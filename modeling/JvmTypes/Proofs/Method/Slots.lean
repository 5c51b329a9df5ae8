import JvmTypes.Proofs.Members.Narrowing
import Mathlib.Algebra.Ring.Nat
/-!
# Local variable slots

Positions among the local variables follow the declared parameter types, the number of slots that a
method takes follows the types of the view. The two agree as long as variables stand for references:
a view may show another type then, but none of another size.
-/
namespace JvmTypes

namespace Erased

def isReference : Erased → Bool
  | .cls _ | .array _ => true
  | .void | .primitive _ => false

theorem slots_of_isReference {e : Erased} (h : e.isReference = true) : e.slots = 1 := by
  cases e <;> simp_all [isReference, slots]

structure Alike (d e : Erased) : Prop where
  slots : d.slots = e.slots
  isReference : d.isReference = e.isReference

theorem Alike.refl (e : Erased) : e.Alike e := ⟨rfl, rfl⟩

theorem Alike.array (d e : Erased) : Alike (.array d) (.array e) := ⟨rfl, rfl⟩

theorem Alike.of_isReference {d e : Erased} (hd : d.isReference = true)
    (he : e.isReference = true) : d.Alike e :=
  ⟨(slots_of_isReference hd).trans (slots_of_isReference he).symm, hd.trans he.symm⟩

end Erased

/-- No variable of the method and none that occurs in it stands for a primitive type or `void`. -/
structure MethodDecl.HasReferenceVariables (d : MethodDecl) : Prop where
  declared : ∀ v ∈ d.typeVariables, v.erasure.isReference = true
  occurring : ∀ t ∈ d.shapes, ∀ v ∈ t.references, v.erasure.isReference = true

structure Substitution.KeepsReferences (σ : Substitution) : Prop where
  var : ∀ v, v.erasure.isReference = true →
    ∃ e, (σ.var v).erasure? = some e ∧ e.isReference = true
  erased : ∀ e, σ.erased e = .plain e
  raw : ∀ id, σ.raw id = id

namespace Substitution.KeepsReferences

variable {σ : Substitution} (h : σ.KeepsReferences)
include h

theorem boundErasure {own : String → Erased} (hown : ∀ symbol, (own symbol).isReference = true)
    {t : Shape} (ht : ∀ v ∈ t.references, v.erasure.isReference = true) {e : Erased}
    (he : t.erasure? = some e) : e.Alike (σ.boundErasure own t) := by
  apply relates_boundErasure Erased.Alike.refl (fun d e _ => .array d e) h.erased h.raw he
  intro v hv
  have hvar : v.erasure.isReference = true := ht v (Shape.mem_references_of_core? hv)
  rw [Substitution.boundErasure]
  split
  · exact .of_isReference hvar (hown v.symbol)
  · obtain ⟨e, he, href⟩ := h.var v hvar
    rw [he]
    exact .of_isReference hvar href

variable {d : MethodDecl} (hd : d.HasReferenceVariables) (hregular : d.IsRegular)
include hd hregular

theorem chainErasure (steps : Nat) (visited : List String) (symbol : String) :
    (σ.chainErasure d.typeVariables steps visited symbol).isReference = true := by
  induction steps generalizing visited symbol with
  | zero => rfl
  | succ steps ih =>
    rw [Substitution.chainErasure]
    split
    · rfl
    · split
      · rename_i b hb
        obtain ⟨v, hv, hbound⟩ := Option.bind_eq_some_iff.mp hb
        have hdeclared : v ∈ d.typeVariables := List.mem_of_find?_eq_some hv
        have hmem : b ∈ d.shapes :=
          Method.mem_shapes_of_bound hdeclared (List.mem_of_mem_head? hbound)
        obtain ⟨e, he⟩ := Shape.erasure?_of_isRegular (hregular b hmem)
        have hfirst : v.erasure = e := by
          rw [TypeVarDecl.erasure, hbound, Option.bind_some, he]
          rfl
        have halike := h.boundErasure (ih (symbol :: visited)) (hd.occurring b hmem) he
        exact halike.isReference.symm.trans (hfirst ▸ hd.declared v hdeclared)
      · rfl

theorem see (hgives : σ.GivesErasures) {t : Shape} (ht : t ∈ d.shapes) :
    ∃ e e', t.erasure? = some e ∧ (t.subst (σ.retaining d.typeVariables)).erasure? = some e' ∧
      e.slots = e'.slots := by
  obtain ⟨e, he⟩ := Shape.erasure?_of_isRegular (hregular t ht)
  have hown (symbol : String) : (σ.ownErasure d.typeVariables symbol).isReference = true :=
    h.chainErasure hd hregular _ [] symbol
  exact ⟨e, _, he, Method.erasure?_retaining hgives (hregular t ht),
    (h.boundErasure hown (hd.occurring t ht) he).slots⟩

end Substitution.KeepsReferences

/-- All arguments of the type, those of the types around it included, are references. A wildcard
counts as its upper bound. -/
def Shape.HasReferenceArguments (P : Shape) : Prop :=
  ∀ a ∈ P.allArguments, ∀ e ∈ Binding.argumentErasure? a, e.isReference = true

theorem Binding.keepsReferences {s : Store} {P : Shape} (hP : P.isRegular = true)
    (hargs : P.HasReferenceArguments) : (ofShape s P).toSubstitution.KeepsReferences := by
  refine ⟨?_, fun _ => rfl, fun _ => rfl⟩
  intro v hv
  cases h : (ofShape s P).lookup? v with
  | none =>
    rw [var_eq_self _ h]
    exact ⟨v.erasure, rfl, hv⟩
  | some a =>
    rw [var_eq _ h]
    obtain ⟨e, he⟩ := Shape.erasure?_of_isRegular (isRegular_collapse (argument_of_lookup? hP h).1)
    exact ⟨e, he, hargs a (mem_allArguments_of_lookup? h) e (erasure?_collapse a ▸ he)⟩

/-- The parameters, whose types take `sizes`, lie one behind the other from `start` to `stop`. -/
inductive Parameter.Adjacent : (start : Nat) → List Parameter → (sizes : List Nat) →
    (stop : Nat) → Prop
  | nil {n : Nat} : Adjacent n [] [] n
  | cons {start stop : Nat} {q : Parameter} {qs : List Parameter} {e : Erased} {sizes : List Nat}
      (hq : q.offset = start) (he : q.type.erasure = .ok e)
      (h : Adjacent (start + e.slots) qs sizes stop) :
      Adjacent start (q :: qs) (e.slots :: sizes) stop

namespace Parameter.Adjacent

variable {start stop : Nat} {qs : List Parameter} {sizes : List Nat}

theorem offset (h : Adjacent start qs sizes stop) (i : Nat) (hi : i < qs.length) :
    qs[i].offset = start + (sizes.take i).sum := by
  induction h generalizing i with
  | nil => simp at hi
  | cons hq _ _ ih =>
    cases i with
    | zero => exact hq
    | succ i =>
      rw [List.getElem_cons_succ, ih i (by simpa using hi), List.take_succ_cons, List.sum_cons,
        Nat.add_assoc]

theorem erasures (h : Adjacent start qs sizes stop) :
    ∃ es, Shape.erasures (qs.map (·.type)) = .ok es ∧ es.map Erased.slots = sizes := by
  induction h with
  | nil => exact ⟨[], rfl, rfl⟩
  | cons _ he _ ih =>
    obtain ⟨es, hes, rfl⟩ := ih
    refine ⟨_ :: es, ?_, rfl⟩
    rw [List.map_cons, Shape.erasures_cons, he, hes]
    rfl

theorem stop_eq (h : Adjacent start qs sizes stop) : stop = start + sizes.sum := by
  induction h with
  | nil => rfl
  | cons _ _ _ ih => rw [ih, List.sum_cons, Nat.add_assoc]

theorem last (h : Adjacent start qs sizes stop) :
    ∀ q ∈ qs.getLast?, ∃ e, q.type.erasure = .ok e ∧ stop = q.offset + e.slots := by
  induction h with
  | nil => simp
  | @cons start stop q qs e sizes hq he hrest ih =>
    cases hrest with
    | nil =>
      intro r hr
      obtain rfl : q = r := Option.some.inj hr
      exact ⟨e, he, by rw [hq]⟩
    | cons _ _ _ => exact ih

theorem stop_of_nil (h : Adjacent start [] sizes stop) : stop = start := by
  cases h
  rfl

end Parameter.Adjacent

namespace Method

variable {m : Method}

def declaredSlots (p : ParameterDecl) : Nat := (p.type.erasure?.map Erased.slots).getD 0

/-- Wherever the view shows each type with the size that is declared, the parameters that the walk
over the declared types makes are adjacent in the view. -/
theorem adjacent_parametersFrom {ps : List ParameterDecl}
    (h : ∀ p ∈ ps, ∃ e e', p.type.erasure? = some e ∧ (m.see p.type).erasure? = some e' ∧
      e.slots = e'.slots) (index start : Nat) :
    ∃ qs stop, m.parametersFrom index start ps = .ok qs ∧
      qs.map (·.type) = ps.map (fun p => m.see p.type) ∧
      Parameter.Adjacent start qs (ps.map declaredSlots) stop := by
  induction ps generalizing index start with
  | nil => exact ⟨[], start, rfl, rfl, .nil⟩
  | cons p ps ih =>
    obtain ⟨e, e', he, he', hslots⟩ := h p (by simp)
    obtain ⟨qs, stop, hqs, htypes, hadjacent⟩ :=
      ih (fun q hq => h q (by simp [hq])) (index + 1) (start + e.slots)
    refine ⟨⟨m.see p.type, index, start, p.name, p.flags⟩ :: qs, stop, ?_, ?_, ?_⟩
    · rw [parametersFrom_cons m he, hqs, Except.map]
    · rw [List.map_cons, htypes, List.map_cons]
    · have hsize : declaredSlots p = e'.slots := by
        rw [declaredSlots, he, ← hslots]
        rfl
      rw [List.map_cons, hsize]
      exact .cons rfl (Shape.erasure_eq he') (hslots ▸ hadjacent)

/-- The parameters of the method, whose types take `sizes` in the view: each stands behind the
receiver and the parameters before it, and the method takes the slots up to the end of the last
one. -/
structure Layout (m : Method) (qs : List Parameter) (sizes : List Nat) : Prop where
  parameters : m.parameters = .ok qs
  types : qs.map (·.type) = m.parameterTypes
  erasures : ∃ es, Shape.erasures m.parameterTypes = .ok es ∧ es.map Erased.slots = sizes
  offset : ∀ i (hi : i < qs.length), qs[i].offset = m.receiverSlots + (sizes.take i).sum
  last : ∀ q ∈ qs.getLast?, ∃ e, q.type.erasure = .ok e ∧ m.slots = .ok (q.offset + e.slots)
  receiver : qs = [] → m.slots = .ok m.receiverSlots

theorem foldr_slots (es : List Erased) (n : Nat) :
    es.foldr (fun e k => e.slots + k) n = n + (es.map Erased.slots).sum := by
  induction es with
  | nil => rfl
  | cons e es ih =>
    rw [List.foldr_cons, ih, List.map_cons, List.sum_cons]
    omega

theorem exists_layout
    (h : ∀ p ∈ m.decl.parameters, ∃ e e', p.type.erasure? = some e ∧
      (m.see p.type).erasure? = some e' ∧ e.slots = e'.slots) :
    ∃ qs, m.Layout qs (m.decl.parameters.map declaredSlots) := by
  obtain ⟨qs, stop, hqs, htypes, hadjacent⟩ := adjacent_parametersFrom h 0 m.receiverSlots
  obtain ⟨es, hes, hsizes⟩ := hadjacent.erasures
  have htypes : qs.map (·.type) = m.parameterTypes := htypes
  have hslots : m.slots = .ok stop := by
    rw [slots, ← htypes, hes, hadjacent.stop_eq, ← hsizes, ← foldr_slots]
    rfl
  refine ⟨qs, hqs, htypes, ⟨es, htypes ▸ hes, hsizes⟩, hadjacent.offset, ?_, ?_⟩
  · intro q hq
    obtain ⟨e, he, rfl⟩ := hadjacent.last q hq
    exact ⟨e, he, hslots⟩
  · rintro rfl
    exact hadjacent.stop_of_nil ▸ hslots

/-- The method as declared, or as it is seen through a regular type with reference arguments. -/
inductive SeenByReferences (s : Store) (owner : ClassId) (d : MethodDecl) : Method → Prop
  | declared : SeenByReferences s owner d (ofDecl owner d)
  | through {P : Shape} (hP : P.isRegular = true) (hargs : P.HasReferenceArguments) :
      SeenByReferences s owner d
        ((ofDecl owner d).through P (Binding.ofShape s P).toSubstitution)

/-- The parameters of a method take the same slots in every view. -/
theorem slots_agree_in_every_view {d : MethodDecl} (hregular : d.IsRegular)
    (hvariables : d.HasReferenceVariables) :
    ∃ sizes, ∀ s owner m, SeenByReferences s owner d m → ∃ qs, m.Layout qs sizes := by
  refine ⟨d.parameters.map declaredSlots, ?_⟩
  intro s owner m hm
  cases hm with
  | declared =>
    apply exists_layout
    intro p hp
    obtain ⟨e, he⟩ := Shape.erasure?_of_isRegular (hregular p.type (mem_shapes_of_parameter hp))
    exact ⟨e, e, he, he, rfl⟩
  | through hP hargs =>
    apply exists_layout
    intro p hp
    exact (Binding.keepsReferences hP hargs).see hvariables hregular (Binding.givesErasures hP)
      (mem_shapes_of_parameter hp)

/-- `<X extends E> void record(long, X[], X, E, double, int)` of the class `Tally<E>`. -/
def record : MethodDecl where
  internalName := "record"
  flags := .empty
  typeVariables := [⟨"X", [.variable ⟨"E", .type ⟨14⟩, .object⟩]⟩]
  returnType := .void
  parameters := [⟨.plain (.primitive .long), none, none⟩,
    ⟨.array (.variable ⟨"X", .method, .object⟩), none, none⟩,
    ⟨.variable ⟨"X", .method, .object⟩, none, none⟩,
    ⟨.variable ⟨"E", .type ⟨14⟩, .object⟩, none, none⟩,
    ⟨.plain (.primitive .double), none, none⟩, ⟨.plain (.primitive .int), none, none⟩]

def tally : ClassDecl where
  name := "p.Tally"
  flags := .empty
  typeVariables := [⟨"E", [.object]⟩]
  superclass := some .object
  methods := [record]

def tallyStore : Store := ⟨(Store.seeds ++ [tally]).toArray⟩

def stringsTally : Shape := .applied ⟨14⟩ [.upper (.plain (.array (.cls .string)))] none

def seenRecord : Method :=
  (ofDecl ⟨14⟩ record).through stringsTally
    (Binding.ofShape tallyStore stringsTally).toSubstitution

theorem record_keeps_slots :
    record.IsRegular ∧ record.HasReferenceVariables ∧
    SeenByReferences tallyStore ⟨14⟩ record seenRecord ∧
    (∃ sizes, ∀ s owner m, SeenByReferences s owner record m → ∃ qs, m.Layout qs sizes) ∧
    Shape.erasures seenRecord.parameterTypes = .ok [.primitive .long,
      .array (.array (.cls .string)), .array (.cls .string), .array (.cls .string),
      .primitive .double, .primitive .int] ∧
    seenRecord.parameters.map (List.map (·.offset)) = .ok [1, 3, 4, 5, 6, 8] ∧
    seenRecord.slots = .ok 9 := by
  have hregular : record.IsRegular := by
    have hall : ∀ t ∈ record.shapes, t.isRegular = true := by decide
    exact hall
  have hvariables : record.HasReferenceVariables := ⟨by decide, by decide⟩
  have hargs : stringsTally.HasReferenceArguments := by
    have hall : ∀ a ∈ stringsTally.allArguments, ∀ e ∈ Binding.argumentErasure? a,
        e.isReference = true := by decide
    exact hall
  exact ⟨hregular, hvariables, .through (by decide) hargs,
    slots_agree_in_every_view hregular hvariables, by decide, by decide, by decide⟩

end Method

end JvmTypes
