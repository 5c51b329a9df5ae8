import JvmTypes.Proofs.Loader.Circles
import JvmTypes.Proofs.Loader.ConversionVisibility
import JvmTypes.Proofs.Loader.Parameters
import JvmTypes.Proofs.Shape.Hierarchy
/-!
# Chains of super classes

The super class of a loaded class is one that its stub names, so a hierarchy ends unless the source
leads it into a circle. A class that its stub derives from itself is accepted, since it is in
progress while its super class is looked up, and its hierarchy never ends.
-/
namespace JvmTypes.Loader

open Signature

/-- The stub names its super class in its signature, if that can be read, and beside it. -/
def NamesSuper (stub : ClassStub) (super : String) : Prop :=
  stub.superclass = some super ∨ ∃ text sig, stub.signature = some text ∧
    ClassSignature.parse text = .ok sig ∧ super = Name.toBinary sig.superclass.internalName

/-- The source has `sub`, which is no runtime class and no interface, as a class that may be derived
from `super`. -/
def SubclassOf (source : Source) (sub super : String) : Prop :=
  Store.initial.lookup? sub = none ∧ ∃ stub, source sub = some stub ∧
    stub.flags.isInterface = false ∧ NamesSuper stub super

def PlainSubclassOf (source : Source) (sub super : String) : Prop :=
  Store.initial.lookup? sub = none ∧ ∃ stub, source sub = some stub ∧
    stub.flags.isInterface = false ∧ stub.signature = none ∧ stub.superclass = some super

namespace Script

variable {A : Answers} {sur : Surroundings}

theorem class?_of_classShape {c : ClassTree} {t : Shape} (h : (classShape sur c).Ends A (some t)) :
    ∃ id, t.class? = some id ∧ A.cls (Name.toBinary c.internalName) id := by
  obtain ⟨id, hid, herasure⟩ := erasure?_of_classShape h
  have hcls : A.cls (Name.toBinary c.internalName) id := by
    rcases hid with ⟨i, hi, hid⟩ | ⟨_, hid⟩
    · obtain rfl := Option.some.inj hid
      exact hi
    · cases hid
  refine ⟨id, ?_, hcls⟩
  rcases classShape_cases h with ⟨e, rfl⟩ | ⟨raw, as, o, rfl⟩
  · obtain rfl := Option.some.inj herasure
    rfl
  · exact congrArg some (Erased.cls.inj (Option.some.inj herasure))

theorem superclass_of_headerOf {isInterface : Bool} {sig : ClassSignature} {hd : Header}
    (h : (headerOf sur isInterface sig).Ends A (some hd)) {t : Shape}
    (ht : hd.superclass = some t) :
    isInterface = false ∧ ∃ id, t.class? = some id ∧
      A.cls (Name.toBinary sig.superclass.internalName) id := by
  obtain ⟨_, _, _, _, hsuper, _⟩ := ends_headerOf h
  refine ⟨?_, class?_of_classShape (hsuper t ht)⟩
  simp only [headerOf, ends_bind_some, ends_pure, Option.some.injEq] at h
  obtain ⟨_, _, _, _, sc, hsc, _, _, rfl⟩ := h
  cases isInterface with
  | false => rfl
  | true =>
    obtain rfl : sc = none := by simpa [superclassOf] using hsc
    cases ht

theorem ends_plainSuperclass {stub : ClassStub} {t : Shape}
    (h : (plainSuperclass stub).Ends A (some (some t))) :
    stub.flags.isInterface = false ∧ ∃ id name, t.class? = some id ∧ A.cls name id ∧
      stub.superclass = some name := by
  unfold plainSuperclass at h
  cases hname : stub.superclass with
  | none =>
    rw [hname] at h
    cases h
  | some name =>
    rw [hname] at h
    cases hinterface : stub.flags.isInterface with
    | true =>
      simp only [hinterface, if_true] at h
      cases h
    | false =>
      simp only [hinterface, Bool.false_eq_true, if_false] at h
      rcases h with ⟨id, hid, h⟩ | ⟨_, h⟩
      · obtain rfl := Option.some.inj (Option.some.inj h)
        exact ⟨rfl, id, name, rfl, hid, rfl⟩
      · cases h

theorem superclass_of_header {stub : ClassStub} {hd : Header}
    (h : (header sur stub).Ends A (some hd)) {t : Shape} (ht : hd.superclass = some t) :
    stub.flags.isInterface = false ∧ ∃ id name, t.class? = some id ∧ A.cls name id ∧
      NamesSuper stub name := by
  rcases ends_header h with ⟨text, sig, htext, hparse, h⟩ | h
  · obtain ⟨hinterface, id, hid, hcls⟩ := superclass_of_headerOf h ht
    exact ⟨hinterface, id, _, hid, hcls, Or.inr ⟨text, sig, htext, hparse, rfl⟩⟩
  · simp only [plainHeader, ends_bind_some, ends_pure, Option.some.injEq] at h
    obtain ⟨sc, hsc, _, _, rfl⟩ := h
    obtain rfl : sc = some t := ht
    obtain ⟨hinterface, id, name, hid, hcls, hname⟩ := ends_plainSuperclass hsc
    exact ⟨hinterface, id, name, hid, hcls, Or.inl hname⟩

theorem superclass_of_plain {stub : ClassStub} {hd : Header}
    (h : (header sur stub).Ends A (some hd)) (hinterface : stub.flags.isInterface = false)
    (hsignature : stub.signature = none) {name : String} (hname : stub.superclass = some name) :
    ∃ id t, hd.superclass = some t ∧ t.class? = some id ∧ A.cls name id := by
  rcases ends_header h with ⟨text, _, htext, _⟩ | h
  · rw [hsignature] at htext
    cases htext
  · simp only [plainHeader, ends_bind_some, ends_pure, Option.some.injEq] at h
    obtain ⟨sc, hsc, _, _, rfl⟩ := h
    unfold plainSuperclass at hsc
    simp only [hname, hinterface, Bool.false_eq_true, if_false] at hsc
    rcases hsc with ⟨id, hid, h⟩ | ⟨_, h⟩
    · obtain rfl := Option.some.inj h
      exact ⟨id, .ofClass id, rfl, rfl, hid⟩
    · cases h

end Script

theorem DeclaredFrom.superclass {s : Store} {stub : ClassStub} {id : ClassId}
    (h : DeclaredFrom s stub id) {t : Shape} (ht : (s.get id).superclass = some t) :
    ∃ c, t.class? = some c ∧ c.index < s.size ∧ stub.flags.isInterface = false ∧
      NamesSuper stub (s.name c) := by
  obtain ⟨_, _, hbody⟩ := Script.ends_classDecl h.ends
  obtain ⟨hd, hheader, _, _, _, _, _, _, _, _, hsuper, _⟩ := Script.ends_classBody hbody
  rw [hsuper] at ht
  obtain ⟨hinterface, c, name, hc, hcls, hname⟩ := Script.superclass_of_header hheader ht
  refine ⟨c, hc, Store.index_lt_of_lookup? hcls, hinterface, ?_⟩
  rw [Store.name_of_lookup? hcls]
  exact hname

theorem Provided.rooted {stubs : ClassStub → Prop} {s : Store} (h : Provided stubs s)
    (hsound : s.Sound) (hseeded : Store.initial.Grows s) : s.Rooted := by
  have hseed : ∀ {id : ClassId}, id.index < Store.initial.size →
      s.get id = Store.initial.get id :=
    fun hid => hseeded.get_eq _ (Store.defined_initial hid)
  refine ⟨?_, ?_, ?_⟩
  · exact (by decide : ClassId.object.index < Store.initial.size).trans_le hseeded.size_le
  · rw [hseed (by decide)]
    rfl
  · intro id hid t ht
    have hseeds : ∀ c ∈ Store.seeds, ∀ t ∈ c.superclass, ∃ c' ∈ t.class?,
        c'.index < Store.initial.size := by
      decide
    cases hp : (s.get id).isPlaceholder with
    | true =>
      rw [hsound.bare id hp] at ht
      obtain rfl := Option.some.inj ht
      exact ⟨.object, rfl, (by decide : 0 < Store.initial.size).trans_le hseeded.size_le⟩
    | false =>
      rcases h id hp with hruntime | ⟨stub, _, hdeclared⟩
      · have hid := Store.index_lt_of_defined hruntime
        rw [hseed hid] at ht
        obtain ⟨c, hc, hlt⟩ := hseeds _ (Store.get_initial_mem hid) t ht
        exact ⟨c, hc, hlt.trans_le hseeded.size_le⟩
      · obtain ⟨c, hc, hlt, _⟩ := hdeclared.superclass ht
        exact ⟨c, hc, hlt⟩

theorem Reachable.rooted {st : State} (h : Reachable st) : st.store.Rooted :=
  h.supplied.provided.rooted h.sound h.seeded

namespace Sourced

variable {source : Source} {s : Store} (h : Sourced source s) {id : ClassId}
include h

theorem superclass_seed (hid : id.index < Store.initial.size) :
    s.superclass id = Store.initial.superclass id := by
  rw [Store.superclass, h.get_seed hid, Store.superclass]

theorem chainEnds_superclass_seed (hid : id.index < Store.initial.size) :
    ChainEnds s.superclass id := by
  have hobject : ChainEnds s.superclass .object := by
    apply ChainEnds.of_none
    rw [h.superclass_seed (by decide)]
    rfl
  have hcallSite : ChainEnds s.superclass .callSite := by
    have hlink : s.superclass .callSite = some .object := by
      rw [h.superclass_seed (by decide)]
      rfl
    exact .of_some hlink hobject
  have hseeds : ∀ c ∈ Store.seeds, c.superclass.bind Shape.class? = none ∨
      c.superclass.bind Shape.class? = some .object ∨
      c.superclass.bind Shape.class? = some .callSite := by
    decide
  have hlink := h.superclass_seed hid
  rcases hseeds _ (Store.get_initial_mem hid) with hc | hc | hc
  · exact .of_none (hlink.trans hc)
  · exact .of_some (hlink.trans hc) hobject
  · exact .of_some (hlink.trans hc) hcallSite

theorem subclassOf_of_superclass (hdefined : (s.get id).isPlaceholder = false) {t : Shape}
    (ht : (s.get id).superclass = some t) : id.index < Store.initial.size ∨
      ∃ c, t.class? = some c ∧ c.index < s.size ∧ SubclassOf source (s.name id) (s.name c) := by
  rcases h.declaredFrom hdefined with hseed | ⟨stub, hown, hstub, hdeclared⟩
  · exact Or.inl hseed
  · obtain ⟨c, hc, hlt, hinterface, hname⟩ := hdeclared.superclass ht
    exact Or.inr ⟨c, hc, hlt, hown, stub, hstub, hinterface, hname⟩

theorem rooted : s.Rooted := h.provided.rooted h.sound h.seeded

theorem chainEnds_or_subclassOf {c : ClassId} (hc : s.superclass id = some c) :
    ChainEnds s.superclass id ∨ SubclassOf source (s.name id) (s.name c) := by
  obtain ⟨t, ht, htc⟩ := Option.bind_eq_some_iff.mp hc
  cases hp : (s.get id).isPlaceholder with
  | true =>
    rw [h.sound.bare id hp] at ht
    obtain rfl := Option.some.inj ht
    obtain rfl := Option.some.inj htc
    exact Or.inl (.of_some hc (h.chainEnds_superclass_seed (by decide)))
  | false =>
    rcases h.subclassOf_of_superclass hp ht with hseed | ⟨c', hc', _, hsub⟩
    · exact Or.inl (h.chainEnds_superclass_seed hseed)
    · obtain rfl := Option.some.inj (htc.symm.trans hc')
      exact Or.inr hsub

theorem index_lt_of_endless (hgoes : ¬ ChainEnds s.superclass id) : id.index < s.size := by
  by_contra hout
  have hobject : s.superclass id = some .object := by
    rw [Store.superclass, Store.get_of_size_le (not_lt.mp hout)]
    rfl
  exact hgoes (.of_some hobject (h.chainEnds_superclass_seed (by decide)))

theorem superclass_of_plainSubclassOf {sub super : String} (hsub : PlainSubclassOf source sub super)
    (hid : s.lookup? sub = some id) (hdefined : (s.get id).isPlaceholder = false) :
    ∃ c, s.lookup? super = some c ∧ s.superclass id = some c := by
  obtain ⟨hown, stub, hstub, hinterface, hsignature, hsuper⟩ := hsub
  obtain ⟨stub', hstub', hdeclared⟩ := h.declaredFrom_of_lookup? hown hid hdefined
  obtain rfl := Option.some.inj (hstub.symm.trans hstub')
  obtain ⟨_, _, hbody⟩ := Script.ends_classDecl hdeclared.ends
  obtain ⟨hd, hheader, _, _, _, _, _, _, _, _, hdecl, _⟩ := Script.ends_classBody hbody
  obtain ⟨c, t, ht, hc, hlookup⟩ :=
    Script.superclass_of_plain hheader hinterface hsignature hsuper
  refine ⟨c, hlookup, ?_⟩
  rw [Store.superclass, hdecl, ht, Option.bind_some, hc]

end Sourced

/-- Over a store filled from a source, the hierarchy of a shape is finite exactly if the super
classes of its class come to no circle, and then it has at most one type more than the store has
classes. All hierarchies are finite if the source derives no class from itself, however far up. If
it does so without signatures, and its descriptors can be read, loading leaves a class whose
hierarchy never ends. -/
theorem hierarchies_of_load {source : Source} (hsource : Faithful source) :
    (∀ calls, (∀ c ∈ calls, c.ReadsFrom source) → ∀ t : Shape,
      (∀ id, t.class? = some id → id.index < (after calls).store.size) →
        ((∃ n, ∀ m, (t.hierarchy (after calls).store m).length ≤ n) ↔
          ∀ id, t.class? = some id → ¬ RunsInCircle (after calls).store.superclass id) ∧
        ((∃ n, ∀ m, (t.hierarchy (after calls).store m).length ≤ n) →
          ∀ m, (t.hierarchy (after calls).store m).length ≤ (after calls).store.size + 1)) ∧
    ((∀ n, ¬ Relation.TransGen (SubclassOf source) n n) →
      ∀ calls, (∀ c ∈ calls, c.ReadsFrom source) → ∀ t : Shape,
        (∀ id, t.class? = some id → id.index < (after calls).store.size) →
        ∀ m, (t.hierarchy (after calls).store m).length ≤ (after calls).store.size + 1) ∧
    ((∀ name stub, source name = some stub → stub.Readable) →
      ∀ n, Relation.TransGen (PlainSubclassOf source) n n →
        ∃ (names : List String) (id : ClassId), ∀ m,
          ((Shape.ofClass id).hierarchy (after (names.map (.load source {}))).store m).length =
            m) := by
  have hrooted : ∀ calls : List Call, (∀ c ∈ calls, c.ReadsFrom source) →
      (after calls).store.Rooted := fun _ hcalls => (sourced_after hsource hcalls).rooted
  refine ⟨?_, ?_, ?_⟩
  · intro calls hcalls t hin
    constructor
    · exact Shape.hierarchy_ends_iff (hrooted calls hcalls) hin
    · exact Shape.length_hierarchy_le_size (hrooted calls hcalls) hin
  · intro hacyclic calls hcalls t hin
    apply Shape.length_hierarchy_le_size (hrooted calls hcalls) hin
    rw [Shape.hierarchy_ends_iff (hrooted calls hcalls) hin]
    intro id ht
    apply ChainEnds.not_runsInCircle
    exact chainEnds_of_names
      (fun _ hreach _ => (hrooted calls hcalls).index_lt (hin id ht) hreach) hacyclic
      fun _ _ hlink => (sourced_after hsource hcalls).chainEnds_or_subclassOf hlink
  · intro hreadable n hcircle
    obtain ⟨names, id, hgoes⟩ : ∃ (names : List String) (id : ClassId),
        ¬ ChainEnds (after (names.map (.load source {}))).store.superclass id := by
      apply exists_endless (R := PlainSubclassOf source) _ _ hsource hreadable hcircle
      · rintro sub super ⟨_, stub, hstub, _⟩
        rw [hstub]
        rfl
      · intro s sub super id hs hsub hid hdefined
        exact hs.superclass_of_plainSubclassOf hsub hid hdefined
    have hsourced := sourced_after hsource (Call.readsFrom_loads source {} names)
    refine ⟨names, id, fun m => Shape.length_hierarchy_of_endless ?_ m⟩
    rintro ⟨n, hn⟩
    rw [Shape.follow_parent?_eq_none_iff hsourced.rooted (hsourced.index_lt_of_endless hgoes)
      (Shape.class?_ofClass id)] at hn
    exact hgoes ⟨n, hn⟩

def derivedSource : Source :=
  ofStubs [{ bareStub "p.A" with superclass := some "p.B" },
    { bareStub "p.B" with superclass := none }]

theorem subclassOf_derivedSource {sub super : String} (h : SubclassOf derivedSource sub super) :
    sub = "p.A" ∧ super = "p.B" := by
  obtain ⟨_, stub, hstub, _, hsuper⟩ := h
  obtain ⟨hmem, hname⟩ := mem_of_ofStubs hstub
  rcases List.mem_cons.mp hmem with rfl | hmem
  · rcases hsuper with hsuper | ⟨_, _, htext, _⟩
    · exact ⟨hname.symm, (Option.some.inj hsuper).symm⟩
    · cases htext
  · obtain rfl := List.mem_singleton.mp hmem
    rcases hsuper with hsuper | ⟨_, _, htext, _⟩
    · cases hsuper
    · cases htext

/-- The class and the other one are all of its hierarchy. -/
theorem hierarchy_of_derivedSource :
    Faithful derivedSource ∧ (∀ n, ¬ Relation.TransGen (SubclassOf derivedSource) n n) ∧
    (Shape.ofClass ⟨14⟩).hierarchy (after [.load derivedSource {} "p.A"]).store 3 =
      [.ofClass ⟨14⟩, .ofClass ⟨15⟩] ∧
    ∀ m, ((Shape.ofClass ⟨14⟩).hierarchy (after [.load derivedSource {} "p.A"]).store m).length ≤
      17 := by
  have hfaithful : Faithful derivedSource := faithful_ofStubs _
  have hacyclic : ∀ n, ¬ Relation.TransGen (SubclassOf derivedSource) n n :=
    not_transGen_of_single (fun _ _ h => subclassOf_derivedSource h) (by decide)
  have hsize : (after [.load derivedSource {} "p.A"]).store.size = 16 := by decide +kernel
  have hin : ∀ id, (Shape.ofClass ⟨14⟩).class? = some id →
      id.index < (after [.load derivedSource {} "p.A"]).store.size := by
    intro id hid
    obtain rfl := Option.some.inj hid
    rw [hsize]
    decide
  obtain ⟨_, hfinite, _⟩ := hierarchies_of_load hfaithful
  refine ⟨hfaithful, hacyclic, by decide +kernel, ?_⟩
  intro m
  have hlength := hfinite hacyclic _ (Call.readsFrom_loads derivedSource {} ["p.A"])
    (.ofClass ⟨14⟩) hin m
  change _ ≤ (after [.load derivedSource {} "p.A"]).store.size + 1 at hlength
  rw [hsize] at hlength
  exact hlength

/-- A class that its stub derives from itself is its own super class, over and over. -/
theorem hierarchy_of_self_derived_never_ends :
    let source := ofStubs [{ bareStub "p.A" with superclass := some "p.A" }]
    Faithful source ∧ (after [.load source {} "p.A"]).store.name ⟨14⟩ = "p.A" ∧
    ∀ m, ((Shape.ofClass ⟨14⟩).hierarchy (after [.load source {} "p.A"]).store m).length = m := by
  intro source
  have hparent : (Shape.ofClass ⟨14⟩).parent? (after [.load source {} "p.A"]).store =
      some (.ofClass ⟨14⟩) := by
    decide +kernel
  refine ⟨faithful_ofStubs _, by decide +kernel, ?_⟩
  intro m
  apply Shape.length_hierarchy_of_endless
  intro hends
  exact hends.not_circle (.single hparent)

end JvmTypes.Loader
