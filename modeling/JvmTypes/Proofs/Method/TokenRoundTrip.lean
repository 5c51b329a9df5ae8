import JvmTypes.Proofs.Loader.Reachable
import JvmTypes.Proofs.Method.Views
/-!
# Tokens round trip

On the class that declares the method every token attaches, whatever it erases, and a token that
erases nothing gives the method back. The default token erases the variables of classes, so it
attaches to every class, also when the method was seen through an applied class.
-/
namespace JvmTypes.Method

open Substitution

variable {s : Store} {C D : ClassId} {erase : TypeVariable → Bool} {m : Method} {d : MethodDecl}

theorem exists_of_mem_slot {t : Shape} (h : t ∈ m.returnType :: m.parameterTypes) :
    ∃ u ∈ m.decl.shapes, t = m.see u := by
  rcases List.mem_cons.mp h with rfl | h
  · exact ⟨m.decl.returnType, List.mem_append_right _ (List.mem_cons_self ..), rfl⟩
  · obtain ⟨p, hp, rfl⟩ := List.mem_map.mp h
    exact ⟨p.type, mem_shapes_of_parameter hp, rfl⟩

theorem attachable_ofDecl {outer : Scope} (hd : d.Coherent outer)
    (houter : ∀ symbol v, outer symbol = some v → v.isOfClass = true)
    (hscope : ∀ v, outer v.symbol = some v → erase v = false → Scope.ofClass s D v.symbol = some v)
    (htarget : ¬ (ofDecl C d).Mentions .target) : (ofDecl C d).Attachable s D erase := by
  have herased : ∀ t ∈ d.shapes, ∃ e, t.erasure? = some e :=
    fun t ht => Shape.erasure?_of_isRegular (hd.shapes t ht).regular
  have hshapes : (ofDecl C d).shapes = d.shapes := List.map_id d.shapes
  refine ⟨fun p hp => herased _ (mem_shapes_of_parameter hp), ?_, htarget, ?_, ?_⟩
  · intro t ht
    obtain ⟨u, hu, hsee⟩ := exists_of_mem_slot ht
    exact hsee ▸ herased u hu
  · intro t ht v hv
    rcases reference_cases houter ((hd.shapes t (hshapes ▸ ht)).references v hv) with
      ⟨hsource, _⟩ | ⟨hclass, _⟩
    · simp [TypeVariable.isDetached, hsource]
    · exact TypeVariable.isDetached_of_isOfClass hclass
  · intro t ht v hv herase
    have hown : (ofDecl C d).ownScope v.symbol =
        Scope.ofDecls .method d.typeVariables v.symbol := by
      have hsame : ∀ w : TypeVarDecl, w.mapBounds (ofDecl C d).see = w := fun w =>
        congrArg (TypeVarDecl.mk w.symbol) (List.map_id w.bounds)
      simp only [ownScope_eq, Scope.ofDecls, hsame]
      rfl
    rw [Scope.orElse, hown]
    rcases Option.or_eq_some_iff.mp ((hd.shapes t (hshapes ▸ ht)).references v hv) with
      h | ⟨hnone, h⟩
    · exact Option.or_eq_some_iff.mpr (Or.inl h)
    · exact Option.or_eq_some_iff.mpr (Or.inr ⟨hnone, hscope v h herase⟩)

theorem Attachable.round_trip (h : m.Attachable s D erase) (hnan : m.decl.hasNaN = false) :
    ∃ token, m.toTokenWith erase = .ok token ∧ token.attach s D = .ok (m.reattached D erase) ∧
      (m.reattached D erase).same m = .ok true ∧
      (m.reattached D erase).toTokenWith erase = .ok token ∧
      token.isIdenticalTo token = true :=
  ⟨_, toTokenWith_eq h.declared erase, h.attach_eq, same_reattached h.erased D erase,
    h.toTokenWith_reattached, isIdenticalTo_mapToken hnan _⟩

theorem toDecl_mapToken_id (C : ClassId) (d : MethodDecl) :
    ((ofDecl C d).mapToken id).toDecl = d := by
  rw [mapToken, typeVariables_ofDecl, exceptions_ofDecl, returnType, see_ofDecl, mapBounds_id]
  simp [MethodToken.toDecl, ofDecl, internalName, flags]

theorem reattached_ofDecl (hd : ∀ t ∈ d.shapes, t.IsNormal) (hretain : ∀ v, erase v = false) :
    (ofDecl C d).reattached C erase = ofDecl C d := by
  have hidentity : erasing erase = identity := by
    simp [erasing, identity, hretain]
  have hshapes : (ofDecl C d).mapToken (Shape.subst (erasing erase)) =
      (ofDecl C d).mapToken id := by
    apply mapToken_congr
    intro t ht
    rw [hidentity]
    exact hd t (shapes_ofDecl C d ▸ ht)
  rw [reattached, hshapes, toDecl_mapToken_id]

/-- A method of a class, as declared or seen through an application of the class. Wildcards stand
only as arguments of the application, and its references are to variables of classes. -/
inductive ViewOf (s : Store) (C : ClassId) : Method → Prop
  | declared {m : Method} (h : m ∈ declaredBy s C) : ViewOf s C m
  | through {as o ms} {m : Method} (hregular : (Shape.applied C as o).isRegular = true)
      (hclasses : ∀ v ∈ (Shape.applied C as o).references, v.isOfClass = true)
      (hms : (Shape.applied C as o).methods s = .ok ms) (hm : m ∈ ms) : ViewOf s C m

theorem references_see {P : Shape} (hP : P.isRegular = true)
    (hclasses : ∀ v ∈ P.references, v.isOfClass = true) {outer : Scope}
    (houter : ∀ symbol v, outer symbol = some v → v.isOfClass = true) (hd : d.Coherent outer)
    {t : Shape} (ht : t ∈ d.shapes) {w : TypeVariable}
    (hw : w ∈
      (t.subst ((Binding.ofShape s P).toSubstitution.retaining d.typeVariables)).references) :
    w.isOfClass = true ∨ ∃ v, TypeVarDecl.find? w.symbol d.typeVariables = some v ∧
      w = ⟨v.symbol, .method,
        (Binding.ofShape s P).toSubstitution.ownErasure d.typeVariables w.symbol⟩ := by
  obtain ⟨v, hv, hw⟩ := Shape.mem_references_subst_of_plain (fun e => Shape.references_plain e) hw
  rcases reference_cases houter ((hd.shapes t ht).references v hv) with
    ⟨hsource, decl, hdecl, hv'⟩ | ⟨hclass, _⟩
  · have hown : w = ⟨v.symbol, .method,
        (Binding.ofShape s P).toSubstitution.ownErasure d.typeVariables v.symbol⟩ := by
      simpa [retaining, hsource] using hw
    refine Or.inr ⟨decl, by rw [hown]; exact hdecl, ?_⟩
    rw [hown, hv']
  · have hsource : v.source ≠ .method := by
      intro h
      simp [TypeVariable.isOfClass, h] at hclass
    simp only [retaining, hsource, if_false] at hw
    rcases Binding.references_var hP hw with rfl | hmem
    · exact Or.inl hclass
    · exact Or.inl (hclasses w hmem)

/-- A coherent method, seen through an applied class, attaches to every class once the variables of
classes are erased. -/
theorem attachable_through {P : Shape} (hP : P.isRegular = true)
    (hclasses : ∀ v ∈ P.references, v.isOfClass = true) {outer : Scope}
    (houter : ∀ symbol v, outer symbol = some v → v.isOfClass = true) (hd : d.Coherent outer)
    (D : ClassId)
    (htarget : ¬ ((ofDecl C d).through P (Binding.ofShape s P).toSubstitution).Mentions .target) :
    ((ofDecl C d).through P (Binding.ofShape s P).toSubstitution).Attachable s D
      isDeclaredOutside := by
  have hregular : ∀ t ∈ d.shapes, t.isRegular = true := fun t ht => (hd.shapes t ht).regular
  refine ⟨fun p hp => Shape.erasure?_of_isRegular (hregular _ (mem_shapes_of_parameter hp)), ?_,
    htarget, ?_, ?_⟩
  · intro t ht
    obtain ⟨u, hu, rfl⟩ := exists_of_mem_slot ht
    exact ⟨_, erasure?_retaining (Binding.givesErasures hP) (hregular u hu)⟩
  · intro t' ht' w hw
    obtain ⟨t, ht, rfl⟩ := List.mem_map.mp ht'
    rcases references_see hP hclasses houter hd ht hw with hclass | ⟨v, _, hv⟩
    · exact TypeVariable.isDetached_of_isOfClass hclass
    · rw [hv]
      rfl
  · intro t' ht' w hw hretain
    obtain ⟨t, ht, rfl⟩ := List.mem_map.mp ht'
    rcases references_see hP hclasses houter hd ht hw with hclass | ⟨v, hfind, hv⟩
    · simp [TypeVariable.isDeclaredOutside_of_isOfClass hclass] at hretain
    · have hbounds : ∀ b ∈ v.bounds, b.isRegular = true := fun b hb =>
        hregular b (mem_shapes_of_bound (List.mem_of_find?_eq_some hfind) hb)
      refine Option.or_eq_some_iff.mpr (Or.inl ?_)
      rw [ownScope_eq]
      refine Option.map_eq_some_iff.mpr ⟨v, hfind, ?_⟩
      rw [hv]
      exact congrArg _
        (erasure_retaining (Binding.givesErasures hP) hfind (hd.grounded w.symbol) hbounds)

theorem mem_declaredBy {m : Method} :
    m ∈ declaredBy s C ↔ ∃ d ∈ (s.get C).methods, ofDecl C d = m :=
  List.mem_map

variable {st : Loader.State}

theorem coherent_of_reachable (h : Loader.Reachable st)
    (hdistinct : (st.store.get C).HasDistinctParameters) (hd : d ∈ (st.store.get C).methods) :
    d.Coherent (Scope.ofClass st.store C) :=
  (h.coherent_get hdistinct).method hd

/-- On the class that declares the method every token attaches to an equal method with an identical
token, and the token that erases nothing gives all shapes back. -/
theorem token_round_trips_on_own_class (h : Loader.Reachable st)
    (hdistinct : (st.store.get C).HasDistinctParameters) (hm : m ∈ declaredBy st.store C)
    (htarget : ¬ m.Mentions .target) (hnan : m.decl.hasNaN = false) (erase : TypeVariable → Bool) :
    ∃ token m' token', m.toTokenWith erase = .ok token ∧ token.attach st.store C = .ok m' ∧
      m'.same m = .ok true ∧
      m'.toTokenWith erase = .ok token' ∧ token'.isIdenticalTo token = true ∧
      ((∀ v, erase v = false) → m'.typeVariables = m.typeVariables ∧ m'.returnType = m.returnType ∧
        m'.parameterTypes = m.parameterTypes ∧ m'.exceptions = m.exceptions) := by
  obtain ⟨d, hd, rfl⟩ := mem_declaredBy.mp hm
  have hcoherent := coherent_of_reachable h hdistinct hd
  have hattachable : (ofDecl C d).Attachable st.store C erase :=
    attachable_ofDecl hcoherent (fun _ _ => Scope.isOfClass_of_ofClass) (fun _ hv _ => hv) htarget
  obtain ⟨token, htoken, hattach, hsame, hagain, hidentical⟩ := hattachable.round_trip hnan
  refine ⟨token, _, token, htoken, hattach, hsame, hagain, hidentical, ?_⟩
  intro hretain
  rw [reattached_ofDecl (fun t ht => (hcoherent.shapes t ht).normal) hretain]
  exact ⟨rfl, rfl, rfl, rfl⟩

def pickStub : MethodStub where
  name := "pick"
  descriptor := "(Ljava/lang/Object;Lp/Box;)Ljava/lang/Object;"
  signature := some "<T:TE;>(TT;Lp/Box<-TT;>;)TT;"
  flags := .empty
  exceptions := []
  annotations := []
  defaultValue := none
  parameters := []

/-- `Box<E>` with the method `<T extends E> T pick(T, Box<? super T>)`. -/
def boxStub : ClassStub where
  name := "p.Box"
  flags := .empty
  superclass := some "java.lang.Object"
  interfaces := []
  signature := some "<E:Ljava/lang/Object;>Ljava/lang/Object;"
  declaring := none
  annotations := []
  fields := []
  methods := [pickStub]

def boxSource : Loader.Source := fun name => if name = "p.Box" then some boxStub else none

def boxState : Loader.State := (Loader.load boxSource {} "p.Box" { store := .initial }).2

theorem reachable_boxState : Loader.Reachable boxState :=
  (Loader.Supplied.single boxStub {} "p.Box").reachable

def pick : Method := (declaredBy boxState.store ⟨14⟩).get ⟨0, by decide +kernel⟩

theorem pick_round_trips_on_own_class :
    (boxState.store.get ⟨14⟩).HasDistinctParameters ∧ ¬ pick.Mentions .target ∧
    ∃ token m' token', pick.toTokenWith isDeclaredOutside = .ok token ∧
    token.attach boxState.store ⟨14⟩ = .ok m' ∧
      m'.same pick = .ok true ∧ m'.toTokenWith isDeclaredOutside = .ok token' ∧
      token'.isIdenticalTo token = true := by
  have hdistinct : (boxState.store.get ⟨14⟩).HasDistinctParameters := by decide +kernel
  have htarget : ¬ pick.Mentions .target := by decide +kernel
  obtain ⟨token, m', token', htoken, hattach, hsame, hagain, hidentical, _⟩ :=
    token_round_trips_on_own_class reachable_boxState hdistinct (m := pick)
      (List.get_mem _ _) htarget
      (by decide +kernel) isDeclaredOutside
  exact ⟨hdistinct, htarget, token, m', token', htoken, hattach, hsame, hagain, hidentical⟩

/-- The default token of a method, however it is seen, attaches to every class, where the method
keeps its dispatch slot and its token. -/
theorem default_token_attaches_to_every_class (h : Loader.Reachable st)
    (hdistinct : (st.store.get C).HasDistinctParameters) (hm : ViewOf st.store C m)
    (htarget : ¬ m.Mentions .target) (hnan : m.decl.hasNaN = false) (D : ClassId) :
    ∃ token m' token' text, m.toToken = .ok token ∧ token.attach st.store D = .ok m' ∧
      m'.owner = D ∧ m'.declaringType = .ofClass D ∧ m'.same m = .ok true ∧
      m.descriptor st.store = .ok text ∧ m'.descriptor st.store = .ok text ∧
      m'.toToken = .ok token' ∧ token'.isIdenticalTo token = true := by
  have hattachable : m.Attachable st.store D isDeclaredOutside := by
    cases hm with
    | declared hm =>
      obtain ⟨d, hd, rfl⟩ := mem_declaredBy.mp hm
      refine attachable_ofDecl (coherent_of_reachable h hdistinct hd)
        (fun _ _ => Scope.isOfClass_of_ofClass) ?_ htarget
      intro v hv hretain
      simp [TypeVariable.isDeclaredOutside_of_isOfClass (Scope.isOfClass_of_ofClass hv)] at hretain
    | through hregular hclasses hms hm =>
      obtain rfl := Except.ok.inj hms
      obtain ⟨m, hmem, rfl⟩ := List.mem_map.mp hm
      obtain ⟨d, hd, rfl⟩ := mem_declaredBy.mp hmem
      exact attachable_through hregular hclasses (fun _ _ => Scope.isOfClass_of_ofClass)
        (coherent_of_reachable h hdistinct hd) D htarget
  obtain ⟨token, htoken, hattach, hsame, hagain, hidentical⟩ := hattachable.round_trip hnan
  obtain ⟨text, htext⟩ := descriptor_total st.store hattachable.erased
  exact ⟨token, _, token, text, htoken, hattach, rfl, rfl, hsame, htext,
    (descriptor_reattached st.store m D isDeclaredOutside).trans htext, hagain, hidentical⟩

def superStringBox : Shape := .applied ⟨14⟩ [.lower (.ofClass .string)] none

def seenPick : Method :=
  pick.through superStringBox (Binding.ofShape boxState.store superStringBox).toSubstitution

theorem seen_pick_attaches_to_string : (boxState.store.get ⟨14⟩).HasDistinctParameters ∧
    ViewOf boxState.store ⟨14⟩ seenPick ∧ ¬ seenPick.Mentions .target ∧
    ∃ token m' token' text, seenPick.toToken = .ok token ∧
    token.attach boxState.store .string = .ok m' ∧
      m'.owner = .string ∧ m'.declaringType = .ofClass .string ∧ m'.same seenPick = .ok true ∧
      seenPick.descriptor boxState.store = .ok text ∧ m'.descriptor boxState.store = .ok text ∧
      m'.toToken = .ok token' ∧ token'.isIdenticalTo token = true := by
  have hdistinct : (boxState.store.get ⟨14⟩).HasDistinctParameters := by decide +kernel
  have htarget : ¬ seenPick.Mentions .target := by decide +kernel
  have hview : ViewOf boxState.store ⟨14⟩ seenPick := by
    have hms : superStringBox.methods boxState.store =
        .ok ((declaredBy boxState.store ⟨14⟩).map fun m =>
          m.through superStringBox
            (Binding.ofShape boxState.store superStringBox).toSubstitution) := rfl
    exact .through (by decide) (by decide) hms (List.mem_map_of_mem (List.get_mem _ _))
  exact ⟨hdistinct, hview, htarget,
    default_token_attaches_to_every_class reachable_boxState hdistinct hview htarget
      (by decide +kernel) .string⟩

end JvmTypes.Method
