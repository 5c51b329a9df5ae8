import JvmTypes.Proofs.Loader.Reachable
import JvmTypes.Proofs.Loader.Visibility
/-!
# Where definitions come from

Every class that loading defines is declared as some stub of a source says. While the class was
converted some variables of the classes around may have been out of sight; those that a signature
was given are the ones that the store still has for them.
-/
namespace JvmTypes.Loader

/-- The answers of a store where a variable may be missed and a class may fail to load. -/
def possibly (s : Store) (enclosing : Option ClassId) : Answers where
  cls name id := s.lookup? name = some id
  var symbol v := v = none ∨ v = seenFrom s enclosing symbol
  faulty := True

def known (s : Store) (enclosing : Option ClassId) : Answers where
  cls name id := s.lookup? name = some id
  var symbol v := v.isSome ∧ v = seenFrom s enclosing symbol
  faulty := False

theorem definite_possibly (s : Store) (enclosing : Option ClassId) :
    (possibly s enclosing).Definite :=
  @definite_coherence (fun _ => none) {} enclosing s

theorem possibly_le {s t : Store} (hs : s.Sound) (h : s.Grows t) (enclosing : Option ClassId) :
    (possibly s enclosing).Le (possibly t enclosing) :=
  ⟨fun _ _ hi => h.lookup? hi, fun _ _ hv => none_or_seenFrom_mono h hs hv, fun hf => hf⟩

theorem known_le_possibly (s : Store) (enclosing : Option ClassId) :
    (known s enclosing).Le (possibly s enclosing) :=
  ⟨fun _ _ h => h, fun _ _ h => Or.inr h.2, fun h => h.elim⟩

theorem definite_known (s : Store) (enclosing : Option ClassId) : (known s enclosing).Definite := by
  obtain ⟨hcls, hvar, hsymbol⟩ := definite_possibly s enclosing
  have hle := known_le_possibly s enclosing
  exact ⟨hcls, fun symbol v w hv hw => hvar symbol v w (hle.var _ _ hv) (hle.var _ _ hw),
    fun symbol v hv => hsymbol symbol v (hle.var _ _ hv)⟩

theorem Script.Unforgiving.known {p : Script α} (hp : p.Unforgiving) {s : Store}
    {enclosing : Option ClassId} {a : α} (h : p.Ends (possibly s enclosing) (some a)) :
    p.Ends (Loader.known s enclosing) (some a) := by
  induction hp with
  | done b => exact h
  | fail fault => exact h
  | askClass _ ih =>
    rcases h with ⟨id, hid, h⟩ | ⟨_, h⟩
    · exact Or.inl ⟨id, hid, ih id h⟩
    · cases h
  | askVariable hnone _ ih =>
    obtain ⟨v, rfl | rfl, h⟩ := h
    · rw [hnone] at h
      cases h
    · refine ⟨_, ⟨?_, rfl⟩, ih _ h⟩
      cases hseen : seenFrom s enclosing _ with
      | none =>
        rw [hseen, hnone] at h
        cases h
      | some v => rfl

theorem Script.known_of_shape {s : Store} {enclosing : Option ClassId} {sur : Surroundings}
    {t : Signature.TypeTree} {u : Shape}
    (h : (shape sur t).Ends (possibly s enclosing) (some u)) :
    (shape sur t).Ends (Loader.known s enclosing) (some u) :=
  ((shape_uniform (ρ := id) rfl t).unforgiving rfl).known h

theorem Script.known_of_headerOf {s : Store} {enclosing : Option ClassId} {sur : Surroundings}
    {isInterface : Bool} {sig : Signature.ClassSignature} {hd : Header}
    (h : (headerOf sur isInterface sig).Ends (possibly s enclosing) (some hd)) :
    (headerOf sur isInterface sig).Ends (Loader.known s enclosing) (some hd) :=
  ((headerOf_uniform (ρ := id) rfl isInterface sig).unforgiving rfl).known h

theorem Script.known_of_methodTypesOf {s : Store} {enclosing : Option ClassId} {sur : Surroundings}
    {descriptor : MethodDescriptor} {sig : Signature.MethodSignature} {types : MethodTypes}
    (h : (methodTypesOf sur descriptor sig).Ends (possibly s enclosing) (some types)) :
    (methodTypesOf sur descriptor sig).Ends (Loader.known s enclosing) (some types) :=
  ((methodTypesOf_uniform (ρ := id) rfl descriptor sig).unforgiving rfl).known h

/-- The class at `id` is declared as the stub says. -/
structure DeclaredFrom (s : Store) (stub : ClassStub) (id : ClassId) : Prop where
  name : stub.name = s.name id
  ends : (Script.classDecl id stub).Ends (possibly s (s.get id).enclosing) (some (s.get id))

theorem DeclaredFrom.mono {s t : Store} {stub : ClassStub} {id : ClassId}
    (h : DeclaredFrom s stub id) (hs : s.Sound) (hgrows : s.Grows t)
    (hdefined : (s.get id).isPlaceholder = false) : DeclaredFrom t stub id := by
  have hget := hgrows.get_eq id hdefined
  refine ⟨?_, ?_⟩
  · rw [Store.name, hget]
    exact h.name
  · rw [hget]
    exact h.ends.mono (possibly_le hs hgrows _)

/-- All but the runtime classes is declared from stubs of a kind. -/
def Provided (stubs : ClassStub → Prop) (s : Store) : Prop :=
  ∀ id, (s.get id).isPlaceholder = false → (Store.initial.get id).isPlaceholder = false ∨
    ∃ stub, stubs stub ∧ DeclaredFrom s stub id

theorem Provided.intern {stubs : ClassStub → Prop} {s : Store} (h : Provided stubs s)
    (hs : s.Sound) (name : String) : Provided stubs (s.intern name).2 := by
  intro id hdefined
  rw [Store.get_intern_of_defined hdefined] at hdefined
  rcases h id hdefined with hseed | ⟨stub, hstub, hdeclared⟩
  · exact Or.inl hseed
  · exact Or.inr ⟨stub, hstub, hdeclared.mono hs (Store.grows_intern s name) hdefined⟩

theorem Provided.define {stubs : ClassStub → Prop} {source : Source} {config : Config}
    (hstubs : ∀ n stub, source n = some stub → stubs stub) {stack : List String} {st : State}
    {name : String} {stub : ClassStub} {id : ClassId} {decl : ClassDecl}
    (h : (keeping (Provided stubs) source config).Holds (name :: stack) st)
    (hstub : source name = some stub) (hid : st.store.lookup? name = some id)
    (hend : (Script.classDecl id stub).Ends
      ((keeping (Provided stubs) source config).answers (enclosingIn st.store stub) st.store)
      (some decl))
    (hname : decl.name = name) : Provided stubs (st.store.define id decl) := by
  have hnameid : decl.name = st.store.name id := by rw [hname, Store.name_of_lookup? hid]
  have hgrows := Store.grows_define (h.isPlaceholder hid) hnameid
  intro other hdefined
  by_cases ho : other = id
  · subst ho
    obtain ⟨_, _, hbody⟩ := Script.ends_classDecl hend
    obtain ⟨_, _, _, _, hstubname, _⟩ := Script.ends_classBody hbody
    have hget : (st.store.define other decl).get other = decl :=
      Store.get_define_self (Store.index_lt_of_lookup? hid)
    refine Or.inr ⟨stub, hstubs name stub hstub, ?_, ?_⟩
    · rw [Store.name, hget, hstubname]
    · rw [hget, ← enclosing_of_classDecl (fun _ _ hi => hi) hend]
      exact hend.mono (possibly_le h.sound hgrows _)
  · rw [Store.get_define_ne ho] at hdefined
    rcases h.kept other hdefined with hseed | ⟨stub, hstub, hdeclared⟩
    · exact Or.inl hseed
    · exact Or.inr ⟨stub, hstub, hdeclared.mono h.sound hgrows hdefined⟩

theorem sustained_provided {stubs : ClassStub → Prop} {source : Source}
    (hstubs : ∀ n stub, source n = some stub → stubs stub) (config : Config) :
    (keeping (Provided stubs) source config).Sustained :=
  sustained_keeping (fun _ hs hprovided name => hprovided.intern hs name)
    fun _ _ _ _ _ _ hst hstub hid hend hname => .define hstubs hst hstub hid hend hname

theorem provided_initial (stubs : ClassStub → Prop) : Provided stubs .initial :=
  fun _ hdefined => Or.inl hdefined

/-- Whatever was loaded, and however loads ended, what the store defines comes from the stubs. -/
theorem Supplied.provided {stubs : ClassStub → Prop} {st : State} (h : Supplied stubs st) :
    Provided stubs st.store := by
  have hholds := h.holds (provided_initial stubs)
    (fun _ config hstubs _ => sustained_provided hstubs config) (fun _ => none) {}
  exact hholds.kept

end JvmTypes.Loader
