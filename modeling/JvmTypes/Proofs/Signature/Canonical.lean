import JvmTypes.Proofs.Signature.OfShape
/-!
# Canonical signatures

The signatures that a compiler writes. A type is canonical if it is written as briefly as it can be:
a class inside another one stands in a segment of its own only where a segment before it has
arguments, and a wildcard is not bounded by the root class. Whether the bounds of a type parameter
stand where they should is a matter of the store, which knows the interfaces.
-/
namespace JvmTypes.Signature

def ClassTree.isGeneric : ClassTree → Bool
  | .top _ _ as => !as.isEmpty
  | .member outer _ as => outer.isGeneric || !as.isEmpty

def TypeTree.isGeneric : TypeTree → Bool
  | .base _ => false
  | .classType c => c.isGeneric
  | .variable _ => true
  | .array t => t.isGeneric

mutual

def TypeTree.isCanonical : TypeTree → Bool
  | .base _ | .variable _ => true
  | .classType c => c.isCanonical
  | .array t => t.isCanonical

def ClassTree.isCanonical : ClassTree → Bool
  | .top _ _ as => areCanonical as
  | .member outer _ as => outer.isGeneric && outer.isCanonical && areCanonical as

def areCanonical : List Argument → Bool
  | [] => true
  | a :: as => a.isCanonical && areCanonical as

def Argument.isCanonical : Argument → Bool
  | .any => true
  | .exact t | .super t => t.isCanonical
  | .extends t => decide (t.text ≠ "Ljava/lang/Object;") && t.isCanonical

end

mutual

/-- How deep classes with arguments and generic arrays stand inside each other. -/
def TypeTree.nesting : TypeTree → Nat
  | .base _ | .variable _ => 0
  | .classType c => c.nesting
  | .array t => if t.isGeneric then t.nesting + 1 else 0

def ClassTree.nesting : ClassTree → Nat
  | .top _ _ as => if as.isEmpty then 0 else nestingOfArguments as + 1
  | .member outer _ as => max (nestingOfArguments as) outer.nesting + 1

def nestingOfArguments : List Argument → Nat
  | [] => 0
  | a :: as => max a.nesting (nestingOfArguments as)

def Argument.nesting : Argument → Nat
  | .any => 0
  | .exact t | .extends t | .super t => t.nesting

end

def ClassTree.isInterface (s : Store) (c : ClassTree) : Bool :=
  (s.lookup? (Name.toBinary c.internalName)).any fun id => (Erased.cls id).isInterface s

def TypeTree.isClassBound (s : Store) : TypeTree → Bool
  | .variable _ => true
  | .classType c => !c.isInterface s
  | .base _ | .array _ => false

def TypeTree.isInterfaceBound (s : Store) : TypeTree → Bool
  | .classType c => c.isInterface s
  | .base _ | .variable _ | .array _ => false

/-- There is a bound. Behind the first colon stands a class or a type variable, if anything, and
behind the others stand interfaces of the store. -/
structure TypeParameter.IsCanonical (s : Store) (p : TypeParameter) : Prop where
  bounded : p.bounds ≠ []
  classBound : ∀ t ∈ p.classBound, t.isClassBound s
  interfaceBounds : ∀ t ∈ p.interfaceBounds, t.isInterfaceBound s

instance (s : Store) (p : TypeParameter) : Decidable (p.IsCanonical s) :=
  decidable_of_iff (p.bounds ≠ [] ∧ (∀ t ∈ p.classBound, t.isClassBound s) ∧
    ∀ t ∈ p.interfaceBounds, t.isInterfaceBound s)
    ⟨fun h => ⟨h.1, h.2.1, h.2.2⟩, fun h => ⟨h.bounded, h.classBound, h.interfaceBounds⟩⟩

theorem TypeParameter.IsCanonical.first {s : Store} {p : TypeParameter} (hp : p.IsCanonical s)
    {t : TypeTree} {ts : List TypeTree} (hts : p.bounds = t :: ts) :
    (p = ⟨p.name, none, t :: ts⟩ ∧ ∃ c, t = .classType c ∧ c.isInterface s) ∨
      (p = ⟨p.name, some t, ts⟩ ∧
        ((∃ name, t = .variable name) ∨ ∃ c, t = .classType c ∧ ¬ c.isInterface s)) := by
  obtain ⟨name, _ | first, interfaceBounds⟩ := p
  · obtain rfl : interfaceBounds = t :: ts := hts
    have ht := hp.interfaceBounds t (List.mem_cons_self ..)
    cases t with
    | classType c => exact Or.inl ⟨rfl, c, rfl, ht⟩
    | base | «variable» | array => cases ht
  · obtain ⟨rfl, rfl⟩ := List.cons.inj hts
    have ht := hp.classBound first rfl
    cases first with
    | «variable» name => exact Or.inr ⟨rfl, Or.inl ⟨name, rfl⟩⟩
    | classType c => exact Or.inr ⟨rfl, Or.inr ⟨c, rfl, by simpa [TypeTree.isClassBound] using ht⟩⟩
    | base | array => cases ht

def ClassSignature.types (sig : ClassSignature) : List TypeTree :=
  sig.typeParameters.flatMap (·.bounds) ++ (sig.superclass :: sig.interfaces).map .classType

def MethodSignature.types (sig : MethodSignature) : List TypeTree :=
  sig.typeParameters.flatMap (·.bounds) ++
    (sig.parameters ++ sig.returnType.toList ++ sig.throws)

/-- The signature that a compiler writes for a class of the store. -/
structure ClassSignature.IsCanonical (s : Store) (isInterface : Bool) (sig : ClassSignature) :
    Prop where
  wellFormed : sig.isWellFormed
  identifiers : ∀ x ∈ sig.identifiers, IsIdentifier x
  parameters : ∀ p ∈ sig.typeParameters, p.IsCanonical s
  types : ∀ t ∈ sig.types, t.isCanonical ∧ t.nesting ≤ maxDepth
  root : isInterface → sig.superclass = rootTree
  generic : sig.typeParameters ≠ [] ∨ ∃ c ∈ sig.superclass :: sig.interfaces, c.isGeneric

/-- The signature that a compiler writes for a method of a class of the store. -/
structure MethodSignature.IsCanonical (s : Store) (sig : MethodSignature) : Prop where
  wellFormed : sig.isWellFormed
  identifiers : ∀ x ∈ sig.identifiers, IsIdentifier x
  parameters : ∀ p ∈ sig.typeParameters, p.IsCanonical s
  types : ∀ t ∈ sig.types, t.isCanonical ∧ t.nesting ≤ maxDepth
  throws : sig.throws = [] ∨ ∃ t ∈ sig.throws, t.isGeneric
  generic : sig.typeParameters ≠ [] ∨
    ∃ t ∈ sig.parameters ++ sig.returnType.toList ++ sig.throws, t.isGeneric

theorem ClassSignature.IsCanonical.bounded {s : Store} {isInterface : Bool} {sig : ClassSignature}
    (h : sig.IsCanonical s isInterface) : Bounded sig.typeParameters :=
  fun p hp => (h.parameters p ((List.dropLast_sublist _).subset hp)).bounded

theorem MethodSignature.IsCanonical.bounded {s : Store} {sig : MethodSignature}
    (h : sig.IsCanonical s) : Bounded sig.typeParameters :=
  fun p hp => (h.parameters p ((List.dropLast_sublist _).subset hp)).bounded

/-! ### The types of a canonical signature -/

structure TypeTree.IsWritable (t : TypeTree) : Prop where
  wellFormed : t.isWellFormed
  identifiers : ∀ x ∈ t.identifiers, IsIdentifier x
  canonical : t.isCanonical
  nesting : t.nesting ≤ maxDepth

theorem TypeParameter.isWellFormed_of_bound {p : TypeParameter} (hp : p.isWellFormed) {t : TypeTree}
    (ht : t ∈ p.bounds) : t.isWellFormed := by
  rw [TypeParameter.isWellFormed, Bool.and_eq_true, List.all_eq_true] at hp
  exact (Bool.and_eq_true_iff.mp (hp.2 t ht)).2

theorem TypeParameter.mem_identifiers {ps : List TypeParameter} {p : TypeParameter} (hp : p ∈ ps)
    {t : TypeTree} (ht : t ∈ p.bounds) {x : List Char} (hx : x ∈ t.identifiers) :
    x ∈ ps.flatMap TypeParameter.identifiers :=
  List.mem_flatMap.mpr ⟨p, hp, List.mem_cons_of_mem _ (List.mem_flatMap.mpr ⟨t, ht, hx⟩)⟩

theorem ClassSignature.IsCanonical.isWritable {s : Store} {isInterface : Bool}
    {sig : ClassSignature} (h : sig.IsCanonical s isInterface) : ∀ t ∈ sig.types, t.IsWritable := by
  intro t ht
  have hwell := h.wellFormed
  simp only [ClassSignature.isWellFormed, Bool.and_eq_true, List.all_eq_true] at hwell
  obtain ⟨⟨hps, hclass⟩, hclasses⟩ := hwell
  obtain ⟨hcanonical, hnesting⟩ := h.types t ht
  have hpart : t.isWellFormed ∧ ∀ x ∈ t.identifiers, x ∈ sig.identifiers := by
    rcases List.mem_append.mp ht with hbound | hclassType
    · obtain ⟨p, hp, hbound⟩ := List.mem_flatMap.mp hbound
      exact ⟨TypeParameter.isWellFormed_of_bound (hps p hp) hbound, fun x hx =>
        List.mem_append_left _ (TypeParameter.mem_identifiers hp hbound hx)⟩
    · obtain ⟨c, hc, rfl⟩ := List.mem_map.mp hclassType
      rcases List.mem_cons.mp hc with rfl | hc
      · exact ⟨hclass, fun x hx => List.mem_append_right _ (List.mem_append_left _ hx)⟩
      · exact ⟨hclasses c hc, fun x hx => List.mem_append_right _
          (List.mem_append_right _ (List.mem_flatMap.mpr ⟨c, hc, hx⟩))⟩
  exact ⟨hpart.1, fun x hx => h.identifiers x (hpart.2 x hx), hcanonical, hnesting⟩

theorem MethodSignature.IsCanonical.isWritable {s : Store} {sig : MethodSignature}
    (h : sig.IsCanonical s) : ∀ t ∈ sig.types, t.IsWritable := by
  intro t ht
  have hwell := h.wellFormed
  simp only [MethodSignature.isWellFormed, Bool.and_eq_true, List.all_eq_true] at hwell
  obtain ⟨⟨⟨hps, hparameters⟩, hreturn⟩, hthrows⟩ := hwell
  obtain ⟨hcanonical, hnesting⟩ := h.types t ht
  have hpart : t.isWellFormed ∧ ∀ x ∈ t.identifiers, x ∈ sig.identifiers := by
    rcases List.mem_append.mp ht with hbound | hrest
    · obtain ⟨p, hp, hbound⟩ := List.mem_flatMap.mp hbound
      exact ⟨TypeParameter.isWellFormed_of_bound (hps p hp) hbound, fun x hx =>
        List.mem_append_left _ (TypeParameter.mem_identifiers hp hbound hx)⟩
    · refine ⟨?_, fun x hx => List.mem_append_right _ (List.mem_flatMap.mpr ⟨t, hrest, hx⟩)⟩
      rcases List.mem_append.mp hrest with hrest | hthrown
      · rcases List.mem_append.mp hrest with hparameter | hreturned
        · exact hparameters t hparameter
        · rw [Option.mem_toList.mp hreturned] at hreturn
          exact hreturn
      · exact (hthrows t hthrown).2
  exact ⟨hpart.1, fun x hx => h.identifiers x (hpart.2 x hx), hcanonical, hnesting⟩

end JvmTypes.Signature
