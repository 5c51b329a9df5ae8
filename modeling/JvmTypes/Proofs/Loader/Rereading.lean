import JvmTypes.Field
import JvmTypes.Proofs.Loader.WrittenDeclarations
import JvmTypes.Proofs.Method.Reattachment
import JvmTypes.Proofs.Signature.RoundTrip
/-!
# Signatures of loaded classes

The signature that is written for a loaded class, field or method is read, and converted in the
scope of its declaration it gives the types that were loaded.
-/
namespace JvmTypes

/-- The signatures of the stub that can be read are written with identifiers of a class file. -/
structure ClassStub.UsesIdentifiers (stub : ClassStub) : Prop where
  header : ∀ sig, stub.parsedSignature = some (.ok sig) →
    ∀ x ∈ sig.identifiers, Signature.IsIdentifier x
  fields : ∀ f ∈ stub.fields, ∀ t, f.parsedSignature = some (.ok t) →
    ∀ x ∈ t.identifiers, Signature.IsIdentifier x
  methods : ∀ m ∈ stub.methods, ∀ sig, m.parsedSignature = some (.ok sig) →
    ∀ x ∈ sig.identifiers, Signature.IsIdentifier x

def ClassDecl.headerShapes (c : ClassDecl) : List Shape :=
  c.typeVariables.flatMap (·.bounds) ++ (c.superclass.toList ++ c.interfaces)

namespace Loader

open Signature

/-- The classes that the store names are found at their places, one after the other. -/
structure Finds (s : Store) (resolve : Resolver) (ready : State → Prop) : Prop where
  grows : ∀ st, ready st → s.Grows st.store
  found : ∀ st name id, ready st → s.lookup? name = some id →
    ∃ st', resolve name st = (.ok id, st') ∧ ready st'

theorem finds_intern (s : Store) : Finds s intern fun st => s.Grows st.store where
  grows _ h := h
  found st name id h hid := ⟨st, by simp only [intern, Store.intern_of_lookup? (h.lookup? hid)], h⟩

/-- A loader finds each class at its place without loading anything if the source has none of those
that are not defined yet, or is on its way to define them. -/
theorem finds_mentioned {source : Source} {config : Config} {st : State}
    (h : ∀ name id, st.store.lookup? name = some id → (st.store.get id).isPlaceholder = true →
      name ∈ st.inProgress ∨ source name = none) (levels : Nat) :
    Finds st.store (Regime.mentioned source config levels) (· = st) where
  grows st' hst := hst ▸ .refl _
  found st' name id hst hid := by
    subst hst
    have hintern : (intern name : Load LoadError ClassId) st' = (.ok id, st') := by
      simp only [intern, Store.intern_of_lookup? hid]
    refine ⟨st', ?_, rfl⟩
    cases levels with
    | zero => exact hintern
    | succ levels =>
      rw [Regime.mentioned, orIntern, Regime.loadWithin_eq]
      cases hp : (st'.store.get id).isPlaceholder with
      | false => rw [Regime.loadWith_of_defined hid hp]
      | true =>
        rcases h name id hid hp with hprogress | hnone
        · rw [Regime.loadWith_of_visited hid (Or.inr hprogress)]
        · by_cases hvisited : name ∈ st'.loaded ∨ name ∈ st'.inProgress
          · rw [Regime.loadWith_of_visited hid hvisited]
          · have huntouched : ∀ i, st'.store.lookup? name = some i →
                name ∉ st'.loaded ∧ name ∉ st'.inProgress ∧
                  (st'.store.get i).isPlaceholder = true := by
              intro i hi
              obtain rfl := Option.some.inj (hid.symm.trans hi)
              obtain ⟨hnew, hfree⟩ := not_or.mp hvisited
              exact ⟨hnew, hfree, hp⟩
            rw [Regime.loadWith_of_undefined huntouched, loadWith.loadStub, hnone]
            exact hintern

/-- The text is read, and wherever the classes that the store names are found it is converted to
`a`. -/
structure Rereads (s : Store) (parse : String → Except Signature.Invalid τ)
    (convert : Resolver → τ → Load SignatureFault α) (text : String) (a : α) : Prop where
  accepted : ∃ tree, parse text = .ok tree
  restored : ∀ resolve ready, Finds s resolve ready → ∀ st, ready st →
    ∃ st', converted parse (convert resolve) text st = (.ok a, st') ∧ ready st'

section Resolved

variable {parse : String → Except Signature.Invalid τ}
  {convert : Resolver → τ → Load SignatureFault α} {text : String} {a : α}

theorem Rereads.interned {s : Store} (h : Rereads s parse convert text a) {st : State}
    (hgrows : s.Grows st.store) :
    ∃ st', converted parse (convert intern) text st = (.ok a, st') ∧ s.Grows st'.store :=
  h.restored intern _ (finds_intern s) st hgrows

theorem Rereads.loaded {st : State} (h : Rereads st.store parse convert text a) {source : Source}
    (hsource : ∀ name id, st.store.lookup? name = some id →
      (st.store.get id).isPlaceholder = true → name ∈ st.inProgress ∨ source name = none)
    (config : Config) (levels : Nat) :
    converted parse (convert (Regime.mentioned source config levels)) text st = (.ok a, st) := by
  obtain ⟨_, hrun, rfl⟩ := h.restored _ _ (finds_mentioned hsource levels) st rfl
  exact hrun

end Resolved

def HeaderRereads (s : Store) (id : ClassId) : Prop :=
  ∃ text, (s.get id).signatureText? s = some text ∧
    Rereads s ClassSignature.parse
      (fun resolve => headerOf resolve { declaring := id, enclosing := (s.get id).enclosing }
        (s.get id).isInterface)
      text ⟨(s.get id).typeVariables, (s.get id).superclass, (s.get id).interfaces,
        surroundings s id⟩

def FieldRereads (s : Store) (id : ClassId) (d : FieldDecl) : Prop :=
  ∃ text, (Field.ofDecl id d).signatureText? s = some text ∧
    Rereads s TypeTree.parse (fun resolve => shapeOf resolve (surroundings s id)) text d.type

/-- The signature of a method is written, and read again beside a descriptor for as many parameters
it gives the types of the method. Exceptions are in it only if one of them is generic. -/
def MethodRereads (s : Store) (id : ClassId) (d : MethodDecl) : Prop :=
  ∃ text, (Method.ofDecl id d).signatureText? s = some text ∧
    ∀ descriptor : MethodDescriptor, descriptor.parameters.length = d.parameters.length →
      Rereads s MethodSignature.parse
        (fun resolve => methodTypesOf resolve (surroundings s id) descriptor) text
        ⟨d.typeVariables, d.parameters.map (·.type), d.returnType,
          if d.exceptions.any Shape.isGeneric then d.exceptions else []⟩

namespace Script

variable {s : Store} {resolve : Resolver} {ready : State → Prop} {enclosing : Option ClassId}

theorem Unforgiving.run_known {p : Script α} (hp : p.Unforgiving) (hs : s.Sound)
    (hfinds : Finds s resolve ready) {a : α} {st : State} (hst : ready st) (config : Config)
    (h : p.Ends (Loader.known s enclosing) (some a)) :
    ∃ st', p.run resolve config enclosing st = (.ok a, st') ∧ ready st' := by
  induction hp generalizing st with
  | done b =>
    obtain rfl := Option.some.inj h
    exact ⟨st, rfl, hst⟩
  | fail fault => cases h
  | @askClass name _ _ ih =>
    rcases h with ⟨id, hid, h⟩ | ⟨hf, _⟩
    · obtain ⟨st₁, hrun, hst₁⟩ := hfinds.found st name id hst hid
      have hasked : referenced resolve name st = (.ok id, st₁) := by simp only [referenced, hrun]
      obtain ⟨st₂, hrest, hst₂⟩ := ih id hst₁ h
      exact ⟨st₂, by rw [run, Frame.bind_of_ok hasked, hrest], hst₂⟩
    · exact hf.elim
  | askVariable _ _ ih =>
    obtain ⟨v, ⟨hsome, rfl⟩, h⟩ := h
    obtain ⟨v, hv⟩ := Option.isSome_iff_exists.mp hsome
    obtain ⟨st', hrest, hst'⟩ := ih _ hst h
    refine ⟨st', ?_, hst'⟩
    rw [run, Frame.bind_ok (a := st.store) rfl, seenFrom_mono (hfinds.grows st hst) hs hv, ← hv]
    exact hrest

theorem rereads_of_ends {parse : String → Except Signature.Invalid τ}
    {convert : Resolver → τ → Load SignatureFault α} {script : τ → Script α} {tree : τ}
    {text : String} {a : α} (hs : s.Sound) (hparse : parse text = .ok tree)
    (hconvert : ∀ resolve, convert resolve tree = (script tree).run resolve {} enclosing)
    (hp : (script tree).Unforgiving) (h : (script tree).Ends (known s enclosing) (some a)) :
    Rereads s parse convert text a where
  accepted := ⟨tree, hparse⟩
  restored resolve ready hfinds st hst := by
    obtain ⟨st', hrun, hst'⟩ := hp.run_known hs hfinds hst {} h
    refine ⟨st', ?_, hst'⟩
    simp only [Loader.converted, hparse, hconvert, hrun]

end Script

theorem not_isGeneric_plain (e : Erased) : ¬ (Shape.plain e).isGeneric := by
  simp [Shape.isGeneric, Shape.kind]

theorem not_any_isGeneric {ts : List Shape} (h : ∀ t ∈ ts, ∃ e, t = .plain e) :
    ¬ ts.any Shape.isGeneric := by
  rw [Bool.not_eq_true, List.any_eq_false]
  intro t ht
  obtain ⟨e, rfl⟩ := h t ht
  exact not_isGeneric_plain e

variable {s : Store} {id : ClassId} {stub : ClassStub}

theorem not_isGeneric_of_plainHeader {A : Answers} {sur : Surroundings} {hd : Header}
    {c : ClassDecl} (hplain : (Script.plainHeader sur stub).Ends A (some hd))
    (hvars : c.typeVariables = hd.typeVariables) (hsuper : c.superclass = hd.superclass)
    (hinterfaces : c.interfaces = hd.interfaces) : ¬ c.isGeneric := by
  obtain ⟨_, hnil, hshapes⟩ := Script.ends_plainHeader hplain
  have hno : ∀ u ∈ hd.superclass.toList ++ hd.interfaces, ¬ u.isGeneric := fun u hu => by
    obtain ⟨e, rfl⟩ := hshapes u hu
    exact not_isGeneric_plain e
  have hinterface : hd.interfaces.any Shape.isGeneric = false :=
    List.any_eq_false.mpr fun u hu => hno u (List.mem_append_right _ hu)
  rw [ClassDecl.isGeneric, hvars, hsuper, hinterfaces, hnil, hinterface]
  cases hsc : hd.superclass with
  | none => simp
  | some u => simp [hno u (by simp [hsc])]

theorem not_isGeneric_of_plainTypes {A : Answers} {m : MethodStub} {descriptor : MethodDescriptor}
    {types : MethodTypes} {exceptions : List Shape}
    (hplain : (Script.plainTypes descriptor).Ends A (some types))
    (hexceptions : (Script.exceptionTypes m types).Ends A (some exceptions)) :
    ¬ (Method.ofDecl id (Script.methodDeclWith m types exceptions)).isGeneric := by
  obtain ⟨hvars, hnone, hshapes⟩ := Script.ends_plainTypes hplain
  have hparameters : (Method.ofDecl id (Script.methodDeclWith m types exceptions)).parameterTypes
      = types.parameters := types_of_parameterDecls _ _
  have hps := not_any_isGeneric fun t ht => hshapes t (List.mem_cons_of_mem _ ht)
  have hthrown : ¬ exceptions.any Shape.isGeneric := by
    rcases Script.ends_exceptionTypes hexceptions with ⟨_, hthrown⟩ | rfl
    · exact not_any_isGeneric hthrown
    · simp [hnone]
  obtain ⟨e, he⟩ := hshapes _ (List.mem_cons_self ..)
  have hreturn : ¬ types.returnType.isGeneric := he ▸ not_isGeneric_plain e
  rw [Method.isGeneric, Method.typeVariables_ofDecl, Method.exceptions_ofDecl, hparameters]
  simp only [Bool.or_eq_true, not_or]
  exact ⟨⟨⟨by simp [Script.methodDeclWith, hvars], hps⟩, hreturn⟩, hthrown⟩

theorem header_rereads (hs : s.Sound) (hobject : s.lookup? "java.lang.Object" = some .object)
    (hdeclared : DeclaredFrom s stub id) (hnames : stub.UsesIdentifiers)
    (hgeneric : (s.get id).isGeneric)
    (hn : ∀ u ∈ (s.get id).headerShapes, u.nesting ≤ maxDepth) : HeaderRereads s id := by
  obtain ⟨hd, hhd, hvars, hsuper, hinterfaces, hflags⟩ := hdeclared.header
  have hsur := Script.surroundings_of_header (definite_possibly s _) hhd
  rcases Script.ends_header hhd with ⟨text, sig, htext, hparse, hend⟩ | hplain
  · have hread : stub.parsedSignature = some (.ok sig) := by
      rw [ClassStub.parsedSignature, htext, Option.map_some, hparse]
    obtain ⟨sig', hwrite, hwell, hbounded, hend'⟩ := written_header
      { declaring := id, enclosing := (s.get id).enclosing }
      (ClassSignature.parse_eq_ok.mp hparse).isWellFormed (hnames.header sig hread) hobject
      (Script.known_of_headerOf hend) hvars hsuper hinterfaces hn
    refine ⟨sig'.text, ?_, ?_⟩
    · rw [ClassDecl.signatureText?, if_pos hgeneric, hwrite]
      rfl
    · have hheader : (⟨(s.get id).typeVariables, (s.get id).superclass, (s.get id).interfaces,
          surroundings s id⟩ : Header) = hd := by
        rw [hvars, hsuper, hinterfaces, surroundings, hvars, ← hsur]
      rw [hheader, ClassDecl.isInterface, hflags]
      exact Script.rereads_of_ends hs (ClassSignature.parse_text hwell hbounded)
        (fun resolve => Script.run_headerOf resolve {} _ _ sig')
        ((Script.headerOf_uniform (ρ := fun id => id) rfl _ sig').unforgiving rfl) hend'
  · exact absurd hgeneric (not_isGeneric_of_plainHeader hplain hvars hsuper hinterfaces)

theorem field_rereads (hs : s.Sound) (hdeclared : DeclaredFrom s stub id)
    (hnames : stub.UsesIdentifiers) {d : FieldDecl} (hd : d ∈ (s.get id).fields)
    (hgeneric : d.type.isGeneric) (hn : d.type.nesting ≤ maxDepth) : FieldRereads s id d := by
  obtain ⟨f, hf, hend⟩ := exists_of_mem_right hdeclared.members.1 hd
  rcases Script.ends_fieldDecl hend with ⟨text, tree, htext, hparse, htree⟩ | ⟨t, _, hplain⟩
  · have hread : f.parsedSignature = some (.ok tree) := by
      rw [FieldStub.parsedSignature, htext, Option.map_some, hparse]
    have hspells := TypeTree.parse_eq_ok.mp hparse
    obtain ⟨tree', hw, halike⟩ := @written_shape s (surroundings s id) tree d.type maxDepth
      hspells.2.isWellFormed (hnames.fields f hf tree hread) (Script.known_of_shape htree) hn
    refine ⟨tree'.text, ?_, ?_⟩
    · rw [Field.signatureText?, Field.ofDecl, Shape.signatureText?, if_pos hgeneric,
        Shape.signature, hw.write]
      rfl
    · have href : tree'.isReference := by rw [halike.isReference, hspells.1]
      exact Script.rereads_of_ends hs (TypeTree.parse_text href hw.wellFormed)
        (fun resolve => Script.run_shape resolve {} _ tree')
        ((Script.shape_uniform (ρ := fun id => id) rfl tree').unforgiving rfl) hw.convert
  · obtain ⟨e, he⟩ := Script.ends_fieldShape hplain
    rw [he] at hgeneric
    exact absurd hgeneric (not_isGeneric_plain e)

theorem method_rereads (hs : s.Sound) (hobject : s.lookup? "java.lang.Object" = some .object)
    (hdeclared : DeclaredFrom s stub id) (hnames : stub.UsesIdentifiers) {d : MethodDecl}
    (hd : d ∈ (s.get id).methods) (hgeneric : (Method.ofDecl id d).isGeneric)
    (hn : ∀ u ∈ d.shapes, u.nesting ≤ maxDepth) : MethodRereads s id d := by
  obtain ⟨m, hm, hend⟩ := exists_of_mem_right hdeclared.members.2 hd
  obtain ⟨descriptor, types, exceptions, _, rfl, hexceptions, hsigned | hplain⟩ :=
    Script.ends_methodDecl hend
  · obtain ⟨text, sig, htext, hparse, htypes⟩ := hsigned
    have hread : m.parsedSignature = some (.ok sig) := by
      rw [MethodStub.parsedSignature, htext, Option.map_some, hparse]
    obtain ⟨_, es, hes, htypes⟩ :=
      Script.ends_methodTypesOf (Script.known_of_methodTypesOf htypes)
    -- Exceptions that come from elsewhere than the signature are plain, and so are not written.
    have hthrown : exceptions.any Shape.isGeneric → exceptions = types.exceptions := by
      rcases Script.ends_exceptionTypes hexceptions with ⟨_, hshapes⟩ | h
      · exact fun hany => absurd hany (not_any_isGeneric hshapes)
      · exact fun _ => h
    obtain ⟨sig', hwrite, hwell, hbounded, hes', htypes'⟩ :=
      written_method (surroundings s id)
        (m := .ofDecl id (Script.methodDeclWith m types exceptions))
        (MethodSignature.parse_eq_ok.mp hparse).isWellFormed (hnames.methods m hm sig hread)
        hobject hes htypes (Method.typeVariables_ofDecl id _) (types_of_parameterDecls _ _) rfl
        (by rwa [Method.exceptions_ofDecl]) (by rwa [← Method.shapes_eq, Method.shapes_ofDecl])
    rw [Method.typeVariables_ofDecl, Method.exceptions_ofDecl] at htypes'
    refine ⟨sig'.text, ?_, fun descriptor hcount => ?_⟩
    · rw [Method.signatureText?, if_pos hgeneric, hwrite]
      rfl
    · have hcount' : sig'.parameters.length = descriptor.parameters.length := by
        rw [hcount, (Script.ends_methodTypesIn.mp htypes').2.1.length_eq]
        exact List.length_map _
      refine Script.rereads_of_ends hs (MethodSignature.parse_text hwell hbounded)
        (fun resolve => Script.run_methodTypesOf resolve {} _ descriptor sig')
        ((Script.methodTypesOf_uniform (ρ := fun id => id) rfl descriptor sig').unforgiving rfl) ?_
      rw [Script.methodTypesOf, if_neg (not_ne_iff.mpr hcount')]
      exact Script.ends_bind_some.mpr ⟨es, hes', htypes'⟩
  · exact absurd hgeneric (not_isGeneric_of_plainTypes hplain hexceptions)

/-- Every class that a loader defines from signatures with the identifiers of a class file can write
its generic signature and those of its generic members, if their types are not nested too deep. The
signatures are read again, and in the scope of the class they give exactly what was loaded. -/
theorem signatures_of_loaded {stubs : ClassStub → Prop} {st : State} (h : Supplied stubs st)
    {id : ClassId} (hdefined : (st.store.get id).isPlaceholder = false)
    (hloaded : Store.initial.size ≤ id.index)
    (hnames : ∀ stub, stubs stub → stub.name = st.store.name id → stub.UsesIdentifiers) :
    ((st.store.get id).isGeneric → (∀ u ∈ (st.store.get id).headerShapes, u.nesting ≤ maxDepth) →
      HeaderRereads st.store id) ∧
    (∀ d ∈ (st.store.get id).fields, d.type.isGeneric → d.type.nesting ≤ maxDepth →
      FieldRereads st.store id d) ∧
    (∀ d ∈ (st.store.get id).methods, (Method.ofDecl id d).isGeneric →
      (∀ u ∈ d.shapes, u.nesting ≤ maxDepth) → MethodRereads st.store id d) := by
  have hs := h.reachable.sound
  have hroot : ClassId.object.index < Store.initial.size := by decide
  have hobject : st.store.lookup? "java.lang.Object" = some .object :=
    h.reachable.seeded.lookup? (Store.sound_initial.lookup?_name hroot)
  rcases h.provided id hdefined with hseed | ⟨stub, hstub, hdeclared⟩
  · have hlt := Store.index_lt_of_defined hseed
    omega
  · have hstubnames := hnames stub hstub hdeclared.name
    exact ⟨header_rereads hs hobject hdeclared hstubnames,
      fun _ => field_rereads hs hdeclared hstubnames,
      fun _ => method_rereads hs hobject hdeclared hstubnames⟩

def chestField : FieldStub where
  name := "items"
  descriptor := "[Ljava/lang/Object;"
  signature := some "[TE;"
  flags := .empty
  annotations := []

def chestMethod : MethodStub where
  name := "open"
  descriptor := "(Lp/Chest;)Ljava/lang/Object;"
  signature := some "<X:Ljava/lang/Exception;>(Lp/Chest<+TE;>.Lid<*>;)TE;^TX;"
  flags := .empty
  exceptions := ["java/lang/Exception"]
  annotations := []
  defaultValue := none
  parameters := []

/-- `Chest<E extends Comparable<? super E>> implements Iterable<E>` with a field `E[] items` and a
method `<X extends Exception> E open(Chest<? extends E>.Lid<?>) throws X`. -/
def chestStub : ClassStub where
  name := "p.Chest"
  flags := .empty
  superclass := some "java.lang.Object"
  interfaces := ["java.lang.Iterable"]
  signature := some "<E::Ljava/lang/Comparable<-TE;>;>Ljava/lang/Object;Ljava/lang/Iterable<TE;>;"
  declaring := none
  annotations := []
  fields := [chestField]
  methods := [chestMethod]

def chestSource : Source := fun name => if name = "p.Chest" then some chestStub else none

def chestState : State := (load chestSource {} "p.Chest" { store := .initial }).2

theorem supplied_chestState : Supplied (· = chestStub) chestState :=
  .single chestStub {} "p.Chest"

theorem isIdentifier_of_read {parsed : Option (Except Signature.Invalid τ)}
    {identifiers : τ → List (List Char)} {names : List String} {t : τ}
    (ht : parsed = some (.ok t))
    (h : parsed.map (·.map identifiers) = some (.ok (names.map String.toList)))
    (hnames : ∀ x ∈ names, IsIdentifier x.toList) : ∀ x ∈ identifiers t, IsIdentifier x := by
  obtain rfl := ht
  rw [Except.ok.inj (Option.some.inj h)]
  exact List.forall_mem_map.mpr hnames

theorem chestStub_usesIdentifiers : chestStub.UsesIdentifiers where
  header sig hsig := by
    have h : chestStub.parsedSignature.map (·.map ClassSignature.identifiers) =
        some (.ok (["E", "java", "lang", "Comparable", "E", "java", "lang", "Object", "java",
          "lang", "Iterable", "E"].map String.toList)) := by cbv
    exact isIdentifier_of_read hsig h (by decide)
  fields f hf t ht := by
    obtain rfl := List.mem_singleton.mp hf
    have h : chestField.parsedSignature.map (·.map TypeTree.identifiers) =
        some (.ok (["E"].map String.toList)) := by cbv
    exact isIdentifier_of_read ht h (by decide)
  methods m hm sig hsig := by
    obtain rfl := List.mem_singleton.mp hm
    have h : chestMethod.parsedSignature.map (·.map MethodSignature.identifiers) =
        some (.ok (["X", "java", "lang", "Exception", "p", "Chest", "E", "Lid", "E", "X"].map
          String.toList)) := by cbv
    exact isIdentifier_of_read hsig h (by decide)

theorem signatures_of_chest :
    (chestState.store.get ⟨14⟩).isPlaceholder = false ∧ Store.initial.size ≤ 14 ∧
    chestStub.UsesIdentifiers ∧ HeaderRereads chestState.store ⟨14⟩ ∧
    (∀ d ∈ (chestState.store.get ⟨14⟩).fields, FieldRereads chestState.store ⟨14⟩ d) ∧
    ∀ d ∈ (chestState.store.get ⟨14⟩).methods, MethodRereads chestState.store ⟨14⟩ d := by
  obtain ⟨hdefined, hheader, hfields, hmethods⟩ :
      (chestState.store.get ⟨14⟩).isPlaceholder = false ∧
      ((chestState.store.get ⟨14⟩).isGeneric ∧
        ∀ u ∈ (chestState.store.get ⟨14⟩).headerShapes, u.nesting ≤ maxDepth) ∧
      (∀ d ∈ (chestState.store.get ⟨14⟩).fields, d.type.isGeneric ∧ d.type.nesting ≤ maxDepth) ∧
      ∀ d ∈ (chestState.store.get ⟨14⟩).methods,
        (Method.ofDecl ⟨14⟩ d).isGeneric ∧ ∀ u ∈ d.shapes, u.nesting ≤ maxDepth := by
    decide +kernel
  have hloaded : Store.initial.size ≤ 14 := by decide
  obtain ⟨hc, hf, hm⟩ := signatures_of_loaded supplied_chestState hdefined hloaded
    fun stub hstub _ => hstub ▸ chestStub_usesIdentifiers
  exact ⟨hdefined, hloaded, chestStub_usesIdentifiers, hc hheader.1 hheader.2,
    fun d hd => hf d hd (hfields d hd).1 (hfields d hd).2,
    fun d hd => hm d hd (hmethods d hd).1 (hmethods d hd).2⟩

end Loader

end JvmTypes
