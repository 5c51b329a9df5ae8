import JvmTypes.Proofs.Method.TokenRoundTrip
import JvmTypes.Proofs.Shape.Relocating
/-!
# Retargeted tokens

A retargeted token takes a method from its class to another one. All that was the old class is then
the new class, and a method that is taken on to a class it did not know and back is the old one to
its token.
-/
namespace JvmTypes.Method

open Substitution

variable {s : Store} {C S : ClassId} {m : Method}

def retargeted (m : Method) : MethodToken :=
  m.mapToken (Shape.subst (detaching isDeclaredOutside (some m.owner)))

/-- The method that the retargeted token becomes in the class `S`. -/
def relocated (m : Method) (S : ClassId) : Method :=
  ofDecl S (m.mapToken (Shape.subst (relocating m.owner S))).toDecl

theorem toRetargetedToken_eq (h : ∀ p ∈ m.decl.parameters, ∃ e, p.type.erasure? = some e) :
    m.toRetargetedToken = .ok m.retargeted :=
  detachWith_eq h _

theorem shapes_relocated (m : Method) (S : ClassId) :
    (m.relocated S).shapes = m.shapes.map (Shape.subst (relocating m.owner S)) := by
  rw [relocated, shapes_ofDecl, ← shapes_mapToken]
  rfl

theorem typeVariables_relocated (m : Method) (S : ClassId) :
    (m.relocated S).typeVariables =
      m.typeVariables.map (.mapBounds (Shape.subst (relocating m.owner S))) := by
  rw [relocated, typeVariables_ofDecl]
  rfl

theorem returnType_relocated (m : Method) (S : ClassId) :
    (m.relocated S).returnType = m.returnType.subst (relocating m.owner S) := rfl

theorem parameterTypes_relocated (m : Method) (S : ClassId) :
    (m.relocated S).parameterTypes = m.parameterTypes.map (Shape.subst (relocating m.owner S)) := by
  simp [parameterTypes, relocated, ofDecl, mapToken, MethodToken.toDecl, see]

theorem typeToken_relocated (m : Method) (S : ClassId) :
    (m.relocated S).typeToken = m.typeToken.map fun t =>
      ⟨t.returnType.replaceClass m.owner S, t.parameterTypes.map (·.replaceClass m.owner S)⟩ := by
  rw [typeToken, typeToken, returnType_relocated, parameterTypes_relocated,
    Shape.erasures_map_map fun t _ => Shape.erasure?_relocating m.owner S t, Shape.erasure,
    Shape.erasure, Shape.erasure?_relocating]
  cases m.returnType.erasure? with
  | none => rfl
  | some e => cases Shape.erasures m.parameterTypes <;> rfl

theorem erased_relocated (h : ∀ t ∈ m.returnType :: m.parameterTypes, ∃ e, t.erasure? = some e)
    (S : ClassId) :
    ∀ t ∈ (m.relocated S).returnType :: (m.relocated S).parameterTypes,
      ∃ e, t.erasure? = some e := by
  rw [returnType_relocated, parameterTypes_relocated, ← List.map_cons]
  intro t' ht'
  obtain ⟨t, ht, rfl⟩ := List.mem_map.mp ht'
  obtain ⟨e, he⟩ := h t ht
  exact ⟨e.replaceClass m.owner S, by rw [Shape.erasure?_relocating, he, Option.map_some]⟩

theorem replaceClass_object {a b : ClassId} (h : a ≠ .object) :
    Erased.object.replaceClass a b = .object := by
  rw [Erased.object, Erased.replaceClass, if_neg (Ne.symm h)]

theorem Attachable.own (h : Attachable s C isDeclaredOutside m) {t : Shape} (ht : t ∈ m.shapes)
    {v : TypeVariable} (hv : v ∈ t.references) (hown : isDeclaredOutside v = false) :
    ∃ d, TypeVarDecl.find? v.symbol m.typeVariables = some d ∧
      ⟨d.symbol, .method, d.erasure⟩ = v := by
  rcases Option.or_eq_some_iff.mp (h.resolved t ht v hv hown) with hscope | ⟨_, hscope⟩
  · exact Option.map_eq_some_iff.mp hscope
  · have houtside :=
      TypeVariable.isDeclaredOutside_of_isOfClass (Scope.isOfClass_of_ofClass hscope)
    rw [hown] at houtside
    cases houtside

/-- The method attaches to its own class, and can also leave it: if this is the root class, its
variables do not have it as their erasure for want of a bound. -/
structure Retargetable (s : Store) (m : Method) : Prop where
  attachable : Attachable s m.owner isDeclaredOutside m
  rooted : m.owner = .object → ∀ t ∈ m.shapes, ∀ v ∈ t.references, ∀ d,
    TypeVarDecl.find? v.symbol m.typeVariables = some d →
      d.bounds.head?.bind Shape.erasure? ≠ none

namespace Retargetable

variable (h : m.Retargetable s)
include h

theorem root_cases {t : Shape} (ht : t ∈ m.shapes) {v : TypeVariable} (hv : v ∈ t.references)
    {d : TypeVarDecl} (hd : TypeVarDecl.find? v.symbol m.typeVariables = some d) (S : ClassId) :
    Erased.object.replaceClass m.owner S = .object ∨
      d.bounds.head?.bind Shape.erasure? ≠ none := by
  by_cases hroot : m.owner = .object
  · exact Or.inr (h.rooted hroot t ht v hv d hd)
  · exact Or.inl (replaceClass_object hroot)

theorem scope_eq (S : ClassId) {t : Shape} (ht : t ∈ m.shapes) {v : TypeVariable}
    (hv : v ∈ t.references) (hown : isDeclaredOutside v = false) :
    m.retargeted.scope s S v.symbol =
      some ⟨v.symbol, .method, v.erasure.replaceClass m.owner S⟩ := by
  obtain ⟨d, hfind, rfl⟩ := h.attachable.own ht hv hown
  have hbounds : ∀ b ∈ d.bounds,
      (b.subst (detaching isDeclaredOutside (some m.owner))).erasure? =
        b.erasure?.map (·.replaceClass m.owner .target) := fun b hb =>
    Shape.erasure?_retargeting
      (h.attachable.attached b (bound_mem_shapes (List.mem_of_find?_eq_some hfind) hb))
  have hwaits : (d.mapBounds (Shape.subst (detaching isDeclaredOutside (some m.owner)))).erasure =
      d.erasure.replaceClass m.owner .target :=
    TypeVarDecl.erasure_mapBounds_map hbounds (h.root_cases ht hv hfind .target)
  have htarget : ClassId.target ∉ d.erasure.classes := fun hmention =>
    h.attachable.targetless ⟨t, ht, Shape.mem_classes.mpr (Or.inr (Or.inr ⟨_, hv, hmention⟩))⟩
  have hdeclared : TypeVarDecl.find? d.symbol m.retargeted.typeVariables =
      some (d.mapBounds (Shape.subst (detaching isDeclaredOutside (some m.owner)))) := by
    rw [retargeted, mapToken, TypeVarDecl.find?_mapBounds, hfind, Option.map_some]
  refine Option.or_eq_some_iff.mpr (Or.inl (Option.map_eq_some_iff.mpr ⟨_, hdeclared, ?_⟩))
  rw [hwaits, Erased.replaceClass_replaceClass htarget]
  rfl

theorem attach_eq (S : ClassId) : m.retargeted.attach s S = .ok (m.relocated S) := by
  have hsubst : m.retargeted.subst (attachingIn (m.retargeted.scope s S) S) =
      m.mapToken (Shape.subst (relocating m.owner S)) := by
    rw [retargeted, subst_mapToken, ← retargeted]
    apply mapToken_congr
    intro t ht
    exact Shape.attach_retarget
      (fun v hv => ⟨h.attachable.attached t ht v hv, fun hown => h.scope_eq S ht hv hown⟩)
      fun hmem => h.attachable.targetless ⟨t, ht, hmem⟩
  have hnone : (m.mapToken (Shape.subst (relocating m.owner S))).detachedSymbols = [] := by
    rw [MethodToken.detachedSymbols, shapes_mapToken, List.flatMap_eq_nil_iff]
    intro t' ht'
    obtain ⟨t, _, rfl⟩ := List.mem_map.mp ht'
    apply Shape.detachedSymbols_eq_nil
    intro w hw
    obtain ⟨v, _, _, rfl⟩ := Shape.mem_references_relocating hw
    rfl
  rw [MethodToken.attach, hsubst, hnone]
  rfl

theorem attachable_relocated (hS : S ≠ .target) :
    Attachable s S isDeclaredOutside (m.relocated S) := by
  have herased := erased_relocated h.attachable.erased S
  refine ⟨?_, herased, ?_, ?_, ?_⟩
  · intro p hp
    exact herased p.type (List.mem_cons_of_mem _ (List.mem_map.mpr ⟨p, hp, rfl⟩))
  · rintro ⟨t', ht', hmem⟩
    rw [shapes_relocated] at ht'
    obtain ⟨t, ht, rfl⟩ := List.mem_map.mp ht'
    rcases Shape.mem_classes_relocating hmem with heq | hmem
    · exact hS heq.symm
    · exact h.attachable.targetless ⟨t, ht, hmem⟩
  · intro t' ht' w hw
    rw [shapes_relocated] at ht'
    obtain ⟨t, _, rfl⟩ := List.mem_map.mp ht'
    obtain ⟨v, _, _, rfl⟩ := Shape.mem_references_relocating hw
    rfl
  · intro t' ht' w hw _
    rw [shapes_relocated] at ht'
    obtain ⟨t, ht, rfl⟩ := List.mem_map.mp ht'
    obtain ⟨v, hv, hown, rfl⟩ := Shape.mem_references_relocating hw
    obtain ⟨d, hfind, rfl⟩ := h.attachable.own ht hv hown
    have hdeclared : TypeVarDecl.find? d.symbol (m.relocated S).typeVariables =
        some (d.mapBounds (Shape.subst (relocating m.owner S))) := by
      rw [typeVariables_relocated, TypeVarDecl.find?_mapBounds, hfind, Option.map_some]
    refine Option.or_eq_some_iff.mpr (Or.inl (Option.map_eq_some_iff.mpr ⟨_, hdeclared, ?_⟩))
    rw [TypeVarDecl.erasure_mapBounds_map
      (fun b _ => Shape.erasure?_relocating m.owner S b) (h.root_cases ht hv hfind S)]
    rfl

/-- In a class that it did not mention the method can leave for another class again. -/
theorem retargetable_relocated (hS : S ≠ .target) (hfree : ¬ m.Mentions S) :
    (m.relocated S).Retargetable s := by
  refine ⟨h.attachable_relocated hS, ?_⟩
  intro hroot t' ht' w hw d' hd'
  obtain rfl : S = .object := hroot
  rw [shapes_relocated] at ht'
  obtain ⟨t, ht, rfl⟩ := List.mem_map.mp ht'
  obtain ⟨v, hv, hown, rfl⟩ := Shape.mem_references_relocating hw
  obtain ⟨d, hfind, rfl⟩ := h.attachable.own ht hv hown
  rw [typeVariables_relocated, TypeVarDecl.find?_mapBounds, hfind, Option.map_some] at hd'
  obtain rfl := Option.some.inj hd'
  rw [TypeVarDecl.firstErasure_mapBounds fun b _ => Shape.erasure?_relocating m.owner _ b]
  intro hnone
  have hobject : d.erasure = .object := by
    rw [TypeVarDecl.erasure, Option.map_eq_none_iff.mp hnone]
    rfl
  refine hfree ⟨t, ht, Shape.mem_classes.mpr (Or.inr (Or.inr ⟨_, hv, ?_⟩))⟩
  rw [hobject]
  exact List.mem_singleton_self _

/-- Taken to such a class and back the method has the token that it had. -/
theorem toToken_back (hS : S ≠ .target) (hfree : ¬ m.Mentions S) :
    ((m.relocated S).relocated m.owner).toToken = m.toToken := by
  have hthere := h.retargetable_relocated hS hfree
  have hback := erased_relocated hthere.attachable.erased m.owner
  have hdeclared : ∀ p ∈ ((m.relocated S).relocated m.owner).decl.parameters,
      ∃ e, p.type.erasure? = some e := fun p hp =>
    hback p.type (List.mem_cons_of_mem _ (List.mem_map.mpr ⟨p, hp, rfl⟩))
  rw [toToken, toToken, toTokenWith_eq hdeclared, toTokenWith_eq h.attachable.declared]
  apply congrArg
  rw [relocated, mapToken_ofDecl, relocated, mapToken_ofDecl]
  apply mapToken_congr
  intro t ht
  have hown : (t.subst (relocating m.owner S)).subst (relocating S m.owner) =
      t.subst (erasing isDeclaredOutside) :=
    Shape.relocating_relocating fun hmem => hfree ⟨t, ht, hmem⟩
  exact (congrArg (Shape.subst (detaching isDeclaredOutside none)) hown).trans
    (Shape.detach_erasing (h.attachable.attached t ht))

end Retargetable

variable {st : Loader.State}

theorem declaredBy_object (h : Loader.Reachable st) : declaredBy st.store .object = [] := by
  have hget : st.store.get .object = Store.initial.get .object := h.seeded.get_eq _ rfl
  rw [declaredBy, hget]
  rfl

theorem retargetable_of_reachable (h : Loader.Reachable st)
    (hdistinct : (st.store.get C).HasDistinctParameters) (hm : m ∈ declaredBy st.store C)
    (htarget : ¬ m.Mentions .target) : m.Retargetable st.store := by
  have hroot : C ≠ .object := by
    rintro rfl
    rw [declaredBy_object h] at hm
    cases hm
  obtain ⟨d, hd, rfl⟩ := mem_declaredBy.mp hm
  refine ⟨attachable_ofDecl (coherent_of_reachable h hdistinct hd)
    (fun _ _ => Scope.isOfClass_of_ofClass) (fun _ hv _ => hv) htarget, ?_⟩
  intro hobject
  exact absurd hobject hroot

/-- A retargeted token attaches to every class, and there the class of the method has become that
class in all erased types. If the method knew nothing of it, the way back leads to a method with an
identical token. -/
theorem retargeted_token_follows_class (h : Loader.Reachable st)
    (hdistinct : (st.store.get C).HasDistinctParameters) (hm : m ∈ declaredBy st.store C)
    (htarget : ¬ m.Mentions .target) (hnan : m.decl.hasNaN = false) (hS : S ≠ .target) :
    ∃ token m' t, m.toRetargetedToken = .ok token ∧ token.attach st.store S = .ok m' ∧
      m'.owner = S ∧ m.typeToken = .ok t ∧
      m'.typeToken = .ok ⟨t.returnType.replaceClass C S,
        t.parameterTypes.map (·.replaceClass C S)⟩ ∧
      (¬ m.Mentions S → ∃ token' m'' u u', m'.toRetargetedToken = .ok token' ∧
        token'.attach st.store C = .ok m'' ∧ m.toToken = .ok u ∧ m''.toToken = .ok u' ∧
        u'.isIdenticalTo u = true) := by
  have hleave := retargetable_of_reachable h hdistinct hm htarget
  obtain ⟨d, _, rfl⟩ := mem_declaredBy.mp hm
  obtain ⟨t, ht⟩ := typeToken_total hleave.attachable.erased
  have htoken := toRetargetedToken_eq hleave.attachable.declared
  refine ⟨_, _, t, htoken, hleave.attach_eq S, rfl, ht, ?_, ?_⟩
  · rw [typeToken_relocated, ht]
    rfl
  · intro hfree
    have hreturn := hleave.retargetable_relocated hS hfree
    have htoken' := toRetargetedToken_eq hreturn.attachable.declared
    have hu := toTokenWith_eq hleave.attachable.declared isDeclaredOutside
    exact ⟨_, _, _, _, htoken', hreturn.attach_eq C, hu, (hleave.toToken_back hS hfree).trans hu,
      isIdenticalTo_mapToken hnan _⟩

def trieStub : MethodStub where
  name := "trie"
  descriptor := "(Lp/Trie;[[Lp/Trie;)Lp/Trie;"
  signature := some "<T:Lp/Trie;>(TT;[[Lp/Trie;)TT;"
  flags := .empty
  exceptions := []
  annotations := []
  defaultValue := none
  parameters := []

/-- `Trie` with the method `<T extends Trie> T trie(T, Trie[][])`. -/
def trieClass : ClassStub where
  name := "p.Trie"
  flags := .empty
  superclass := some "java.lang.Object"
  interfaces := []
  signature := none
  declaring := none
  annotations := []
  fields := []
  methods := [trieStub]

def trieState : Loader.State :=
  (Loader.load (fun name => if name = "p.Trie" then some trieClass else none) {} "p.Trie"
    { store := .initial }).2

theorem reachable_trieState : Loader.Reachable trieState :=
  (Loader.Supplied.single trieClass {} "p.Trie").reachable

def trie : Method := (declaredBy trieState.store ⟨14⟩).get ⟨0, by decide +kernel⟩

theorem retargeted_trie_follows_string :
    (trieState.store.get ⟨14⟩).HasDistinctParameters ∧ ¬ trie.Mentions .target ∧
    ¬ trie.Mentions .string ∧
    ∃ token m', trie.toRetargetedToken = .ok token ∧ token.attach trieState.store .string = .ok m' ∧
      m'.typeToken = .ok ⟨.cls .string, [.cls .string, .array (.array (.cls .string))]⟩ ∧
      ∃ token' m'' u u', m'.toRetargetedToken = .ok token' ∧
        token'.attach trieState.store ⟨14⟩ = .ok m'' ∧ trie.toToken = .ok u ∧
        m''.toToken = .ok u' ∧ u'.isIdenticalTo u = true := by
  have hdistinct : (trieState.store.get ⟨14⟩).HasDistinctParameters := by decide +kernel
  have htarget : ¬ trie.Mentions .target := by decide +kernel
  have hfree : ¬ trie.Mentions .string := by decide +kernel
  obtain ⟨token, m', t, htoken, hattach, _, ht, ht', hback⟩ :=
    retargeted_token_follows_class (S := .string) reachable_trieState hdistinct (m := trie)
      (List.get_mem _ _) htarget (by decide +kernel) (by decide)
  have hknown : trie.typeToken =
      .ok ⟨.cls ⟨14⟩, [.cls ⟨14⟩, .array (.array (.cls ⟨14⟩))]⟩ := by decide +kernel
  obtain rfl := Except.ok.inj (hknown.symm.trans ht)
  exact ⟨hdistinct, htarget, hfree, token, m', htoken, hattach, ht', hback hfree⟩

end JvmTypes.Method
