import JvmTypes.Proofs.Loader.ConversionVisibility
import JvmTypes.Proofs.Loader.Enclosing
/-!
# Loading in full

A lenient loader that may go deep enough defines every class that it comes to know, and what it
defines follows the links of the source from class to enclosing class. If each class comes out as
with every type variable in sight, the names in the store are those that the declarations ask for.
-/
namespace JvmTypes.Loader

structure Follows (s : Store) (stub : ClassStub) (decl : ClassDecl) : Prop where
  enclosing : decl.enclosing = enclosingIn s stub
  declaring : ∀ outer, stub.declaring = some outer → (s.lookup? outer).isSome

theorem enclosingIn_mono {s t : Store} (h : s.Grows t) {stub : ClassStub}
    (hd : ∀ outer, stub.declaring = some outer → (s.lookup? outer).isSome) :
    enclosingIn t stub = enclosingIn s stub := by
  rw [enclosingIn, enclosingIn]
  cases hdeclaring : stub.declaring with
  | none => rfl
  | some outer =>
    obtain ⟨d, hlookup⟩ := Option.isSome_iff_exists.mp (hd outer hdeclaring)
    rw [Option.bind_some, Option.bind_some, hlookup, h.lookup? hlookup]

theorem follows_of_classDecl {A : Answers} {s : Store} {stub : ClassStub} {id : ClassId}
    {decl : ClassDecl} (hA : ∀ name i, A.cls name i → s.lookup? name = some i)
    (h : (Script.classDecl id stub).Ends A (some decl)) :
    Follows s stub decl := by
  refine ⟨(enclosing_of_classDecl hA h).symm, ?_⟩
  intro outer houter
  obtain ⟨_, ⟨hnone, _⟩ | ⟨name, d, hname, _, hd⟩, _⟩ := Script.ends_classDecl h
  · rw [houter] at hnone
    cases hnone
  · obtain rfl : outer = name := Option.some.inj (houter.symm.trans hname)
    exact Option.isSome_iff_exists.mpr ⟨d, hA outer d hd⟩

theorem loosely_le {s t : Store} {enclosing : Option ClassId} (hs : s.Sound) (h : s.Grows t) :
    (loosely s enclosing).Le (loosely t enclosing) :=
  ⟨fun _ _ hi => h.lookup? hi, fun _ _ hv => none_or_seenFrom_mono h hs hv, fun hf => hf⟩

/-- The class at `id` is declared as its stub says, where variables of the classes around it may
have been missed. -/
def Converted (s : Store) (stub : ClassStub) (id : ClassId) : Prop :=
  (Script.classDecl id stub).Ends (loosely s (enclosingIn s stub)) (some (s.get id))

theorem Converted.follows {s : Store} {stub : ClassStub} {id : ClassId} (h : Converted s stub id) :
    Follows s stub (s.get id) := follows_of_classDecl (fun _ _ hi => hi) h

theorem Converted.mono {s t : Store} {stub : ClassStub} {id : ClassId} (h : Converted s stub id)
    (hs : s.Sound) (hle : s.Grows t) (hget : t.get id = s.get id) : Converted t stub id := by
  rw [Converted, hget, enclosingIn_mono hle h.follows.declaring]
  exact Script.Ends.mono (loosely_le hs hle) h

/-- While the classes of `stack` are in progress, all others that the source knows are defined if
the store knows them, and nothing else is defined but the runtime classes. -/
structure Complete (source : Source) (stack : List String) (s : Store) : Prop where
  known : ∀ n ∈ stack, (source n).isSome
  defined : ∀ name id, (source name).isSome → s.lookup? name = some id → name ∉ stack →
    (s.get id).isPlaceholder = false
  origin : ∀ id, (s.get id).isPlaceholder = false → (Store.initial.get id).isPlaceholder = false ∨
    ∃ stub, source (s.name id) = some stub ∧ Converted s stub id

namespace Complete

variable {source : Source} {stack : List String} {s : Store} {name : String}

theorem origin_intern (h : Complete source stack s) (hs : s.Sound) (n : String) (id : ClassId)
    (hid : ((s.intern n).2.get id).isPlaceholder = false) :
    (Store.initial.get id).isPlaceholder = false ∨
      ∃ stub, source ((s.intern n).2.name id) = some stub ∧ Converted (s.intern n).2 stub id := by
  have hget := Store.get_intern_of_defined hid
  rw [Store.name, hget]
  rw [hget] at hid
  refine (h.origin id hid).imp_right ?_
  rintro ⟨stub, hstub, hconverted⟩
  exact ⟨stub, hstub, hconverted.mono hs (Store.grows_intern s n) hget⟩

theorem enter (h : Complete source stack s) (hs : s.Sound) (hname : (source name).isSome) :
    Complete source (name :: stack) (s.intern name).2 := by
  refine ⟨?_, ?_, h.origin_intern hs name⟩
  · intro n hn
    rcases List.mem_cons.mp hn with rfl | hn
    · exact hname
    · exact h.known n hn
  · intro n id hn hid hfree
    obtain ⟨hne, hfree⟩ := not_or.mp (List.mem_cons.not.mp hfree)
    rcases Store.lookup?_of_intern hid with rfl | hid
    · exact absurd rfl hne
    · rw [Store.get_intern (Store.index_lt_of_lookup? hid)]
      exact h.defined n id hn hid hfree

theorem intern (h : Complete source stack s) (hs : s.Sound) (hname : source name = none) :
    Complete source stack (s.intern name).2 := by
  refine ⟨h.known, ?_, h.origin_intern hs name⟩
  intro n id hn hid hfree
  rcases Store.lookup?_of_intern hid with rfl | hid
  · rw [hname] at hn
    cases hn
  · rw [Store.get_intern (Store.index_lt_of_lookup? hid)]
    exact h.defined n id hn hid hfree

theorem leave (h : Complete source (name :: stack) s) (hs : s.Sound) {stub : ClassStub}
    {id : ClassId} {decl : ClassDecl} (hstub : source name = some stub)
    (hid : s.lookup? name = some id) (hp : (s.get id).isPlaceholder = true)
    (hname : decl.name = name) (hdefined : decl.isPlaceholder = false)
    (hend : (Script.classDecl id stub).Ends (loosely s (enclosingIn s stub)) (some decl)) :
    Complete source stack (s.define id decl) := by
  have hnameid : decl.name = s.name id := by rw [hname, Store.name_of_lookup? hid]
  have hgrows := Store.grows_define hp hnameid
  have hself : (s.define id decl).get id = decl :=
    Store.get_define_self (Store.index_lt_of_lookup? hid)
  refine ⟨fun n hn => h.known n (by simp [hn]), ?_, ?_⟩
  · intro n i hn hi hfree
    by_cases hin : i = id
    · rw [hin, hself, hdefined]
    · rw [Store.lookup?_define hnameid] at hi
      rw [Store.get_define_ne hin]
      refine h.defined n i hn hi ?_
      intro hmem
      rcases List.mem_cons.mp hmem with rfl | hmem
      · exact hin (Option.some.inj (hi.symm.trans hid))
      · exact hfree hmem
  · intro i hi
    rw [Store.name_define hnameid]
    by_cases hin : i = id
    · have hfollows := follows_of_classDecl (fun _ _ hi => hi) hend
      subst hin
      refine Or.inr ⟨stub, by rw [Store.name_of_lookup? hid, hstub], ?_⟩
      rw [Converted, hself, enclosingIn_mono hgrows hfollows.declaring]
      exact hend.mono (loosely_le hs hgrows)
    · rw [Store.get_define_ne hin] at hi
      refine (h.origin i hi).imp_right ?_
      rintro ⟨stub', hstub', hconverted⟩
      exact ⟨stub', hstub', hconverted.mono hs hgrows (Store.get_define_ne hin)⟩

end Complete

/-- Every class of the source that the store knows, converted again in this store, is declared as it
is there, and no new name comes up. -/
def Settled (source : Source) (config : Config) (s : Store) : Prop :=
  ∀ name stub id, source name = some stub → s.lookup? name = some id →
    Store.initial.lookup? name = none →
    ∃ st, classDecl config Loader.intern id stub { store := s } = (.ok (s.get id), st) ∧
      st.store = s

/-- The names that the finished store `s` has to know: those of the runtime classes, those that were
listed, and all that the declarations of such classes ask for. -/
inductive Wanted (source : Source) (s : Store) (listed : List String) : String → Prop
  | seed {name} (h : (Store.initial.lookup? name).isSome) : Wanted source s listed name
  | listed {name} (h : name ∈ listed) (hknown : (source name).isSome) : Wanted source s listed name
  | asked {inner name stub id} (h : Wanted source s listed inner) (hstub : source inner = some stub)
      (hid : s.lookup? inner = some id) (hown : Store.initial.lookup? inner = none)
      (hasks : (Script.classDecl id stub).Asks (exactly s (enclosingIn s stub)) (.cls name)) :
      Wanted source s listed name

/-- Loading in full, where `final` is the store in the end. -/
def completion (source : Source) (config : Config) (final : Store) (listed : List String) :
    Regime source config where
  kept := Complete source
  wanted _ _ _ := True
  seen enclosing s := (loosely s enclosing).var
  accounts s names t := Settled source config final → t.Grows final →
    (∀ n ∈ names, Wanted source final listed n) →
    ∀ n, (t.lookup? n).isSome → (s.lookup? n).isSome ∨ Wanted source final listed n
  faulty := False

section Sustained

variable {source : Source} {config : Config} {final : Store} {listed : List String}

theorem Regime.Holds.lookup?_initial {R : Regime source config} {stack : List String} {st : State}
    {name : String} {id : ClassId} (h : R.Holds stack st) (hid : st.store.lookup? name = some id)
    (hp : (st.store.get id).isPlaceholder = true) : Store.initial.lookup? name = none := by
  cases hseed : Store.initial.lookup? name with
  | none => rfl
  | some i =>
    obtain rfl : i = id := Option.some.inj ((h.seeded.lookup? hseed).symm.trans hid)
    have hdefined := Store.defined_initial (Store.index_lt_of_lookup? hseed)
    rw [h.seeded.get_eq i hdefined, hdefined] at hp
    cases hp

theorem accounts_define (hadmissible : Admissible source config)
    (hsettled : Settled source config final) {stack : List String} {st : State} {name : String}
    {stub : ClassStub} {id : ClassId} {decl : ClassDecl} {names : List String}
    (h : (completion source config final listed).Holds (name :: stack) st)
    (hstub : source name = some stub) (hid : st.store.lookup? name = some id)
    (htrace : (Script.classDecl id stub).Trace (loosely st.store (enclosingIn st.store stub))
        (some decl) names) (hname : decl.name = name) (hdefined : decl.isPlaceholder = false)
    (hgrows : (st.store.define id decl).Grows final) (hw : Wanted source final listed name) :
    ∀ n ∈ names, Wanted source final listed n := by
  have hnameid : decl.name = st.store.name id := by rw [hname, Store.name_of_lookup? hid]
  have hstep := Store.grows_define (h.isPlaceholder hid) hnameid
  have hfinal := hstep.trans hgrows
  have hget : final.get id = decl := by
    have hself : (st.store.define id decl).get id = decl :=
      Store.get_define_self (Store.index_lt_of_lookup? hid)
    rw [hgrows.get_eq id (by rw [hself, hdefined]), hself]
  have hown := h.lookup?_initial hid (h.isPlaceholder hid)
  have henclosing : enclosingIn final stub = enclosingIn st.store stub :=
    enclosingIn_mono hfinal (follows_of_classDecl (fun _ _ hi => hi) htrace.ends).declaring
  obtain ⟨st', hagain, hstore⟩ := hsettled name stub id hstub (hfinal.lookup? hid) hown
  have hexact := (classDecl_intern_iff hadmissible.lenient).mp ⟨st', hagain, hstore⟩
  rw [hget, henclosing] at hexact
  intro n hn
  refine .asked hw hstub (hfinal.lookup? hid) hown ?_
  rw [henclosing]
  exact Script.asks_of_classDecl (htrace.mono (loosely_le h.sound hfinal)) hexact n hn

theorem sustained_completion (h : Admissible source config) :
    (completion source config final listed).Sustained where
  seen_mono enclosing s t symbol v hs hle hv := (loosely_le hs hle).var symbol v hv
  wanted_mono _ _ _ _ _ h := h
  strict hstrict := by
    rw [h.lenient] at hstrict
    cases hstrict
  enter _ st name stub hst _ hstub _ _ := hst.kept.enter hst.sound (by rw [hstub]; rfl)
  intern stack st name hst _ hcause := by
    rcases hcause with hf | hnone | hdepth
    · exact hf.elim
    · exact hst.kept.intern hst.sound hnone
    · exact absurd (h.length_lt hst.nodup hst.kept.known) (not_lt.mpr hdepth)
  names _ _ _ _ _ _ _ _ _ _ := trivial
  symbols _ _ _ _ _ _ _ _ _ _ := Or.inr rfl
  total name stub id enclosing s hstub hend :=
    Script.total_classDecl id (h.readable name stub hstub) _ (fun hf => hf) hend
  leave stack st name stub id decl hst hstub hid hend hname := by
    obtain ⟨_, _, hbody⟩ := Script.ends_classDecl hend
    obtain ⟨_, _, _, _, _, _, _, hdefined, _⟩ := Script.ends_classBody hbody
    exact hst.kept.leave hst.sound hstub hid (hst.isPlaceholder hid) hname hdefined hend
  abandon _ _ _ hf _ := hf.elim
  accounting := by
    refine ⟨fun s _ _ _ n hn => Or.inl hn, ?_, fun hf => hf.elim⟩
    intro s front t rest u hle hfront hrest hsettled hfinal hwanted n hn
    rcases hrest hsettled hfinal (fun m hm => hwanted m (by simp [hm])) n hn with hn | hn
    · exact hfront hsettled (hle.trans hfinal) (fun m hm => hwanted m (by simp [hm])) n hn
    · exact Or.inr hn
  accounts_intern s name := by
    intro _ _ hwanted n hn
    obtain ⟨id, hid⟩ := Option.isSome_iff_exists.mp hn
    rcases Store.lookup?_of_intern hid with rfl | hid
    · exact Or.inr (hwanted n (by simp))
    · exact Or.inl (Option.isSome_iff_exists.mpr ⟨id, hid⟩)
  accounts_leave s stack st name stub id decl names hst hstub hid htrace hname hacc := by
    intro hsettled hfinal hwanted n hn
    obtain ⟨_, _, hbody⟩ := Script.ends_classDecl htrace.ends
    obtain ⟨_, _, _, _, _, _, _, hdefined, _⟩ := Script.ends_classBody hbody
    have hw := hwanted name (by simp)
    have hnames := accounts_define h hsettled hst hstub hid htrace hname hdefined hfinal hw
    have hnameid : decl.name = st.store.name id := by rw [hname, Store.name_of_lookup? hid]
    rw [Store.lookup?_define hnameid] at hn
    have hgrows := (Store.grows_define (hst.isPlaceholder hid) hnameid).trans hfinal
    rcases hacc hsettled hgrows hnames n hn with hn | hn
    · obtain ⟨i, hi⟩ := Option.isSome_iff_exists.mp hn
      rcases Store.lookup?_of_intern hi with rfl | hi
      · exact Or.inr hw
      · exact Or.inl (Option.isSome_iff_exists.mpr ⟨i, hi⟩)
    · exact Or.inr hn

end Sustained

end JvmTypes.Loader
