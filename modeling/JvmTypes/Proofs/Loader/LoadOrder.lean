import JvmTypes.Proofs.Loader.Agreement
/-!
# The order of loading

Whether a list of names may be loaded in any order depends on what loading leaves behind: the order
does not matter exactly if every order leaves a store in which each class is declared with all the
type variables that it can see. It can matter, since a class may be converted while the class around
it is in progress and shows no variables yet.
-/
namespace JvmTypes.Loader

def loads (source : Source) (config : Config) (st : State) (names : List String) : State :=
  names.foldl (fun st name => (load source config name st).2) st

/-- Loads the classes with one loader into a store that has only the runtime classes. -/
def loadAll (source : Source) (config : Config) (names : List String) : State :=
  loads source config { store := .initial } names

section Loads

variable {source : Source} {config : Config} (h : Admissible source config) {final : Store}
  {listed : List String} {st : State}

theorem Regime.Holds.standing {stack : List String}
    (hst : (completion source config final listed).Holds stack st) :
    Standing source stack st.store := ⟨hst.sound, hst.seeded, hst.kept⟩

theorem holds_start (source : Source) (config : Config) (final : Store) (listed : List String) :
    (completion source config final listed).Holds [] { store := .initial } := by
  refine ⟨rfl, .nil, Store.sound_initial, .refl _, by simp, by simp, by simp, ?_,
    fun _ hid => Or.inl hid⟩
  intro name id _ hid _
  exact Store.defined_initial (Store.index_lt_of_lookup? hid)

theorem load_of_defined (source : Source) (config : Config) {name : String} {id : ClassId}
    (hid : st.store.lookup? name = some id) (hdefined : (st.store.get id).isPlaceholder = false) :
    load source config name st = (.ok id, st) := by
  rw [load, Regime.loadWithin_eq]
  exact Regime.loadWith_of_defined hid hdefined

include h

theorem runs_load (hst : (completion source config final listed).Holds [] st) (name : String) :
    ((completion source config final listed).frame []).Runs (load source config name) st
      (fun id st' => st'.store.lookup? name = some id ∧
        (name ∈ [] ∨ (st'.store.get id).isPlaceholder = false) ∧
        (completion source config final listed).accounts st.store [name] st'.store)
      fun e st' => False ∨ (source name = none ∧ e = .notFound name ∧ st'.store = st.store) :=
  Regime.loads_load (sustained_completion h) h.faithful name st hst trivial

theorem known_load (hst : (completion source config final listed).Holds [] st) {name : String}
    (hname : (source name).isSome) :
    ((load source config name st).2.store.lookup? name).isSome := by
  have hrun := runs_load h hst name
  cases hm : (load source config name st).1 with
  | ok id => exact Option.isSome_iff_exists.mpr ⟨id, (hrun.ok id hm).1⟩
  | error e =>
    rcases hrun.bad e hm with hf | ⟨hnone, _⟩
    · exact hf.elim
    · rw [hnone] at hname
      cases hname

theorem accounts_load (hst : (completion source config final listed).Holds [] st) {name : String}
    (hname : name ∈ listed) (hsettled : Settled source config final)
    (hfinal : (load source config name st).2.store.Grows final) {n : String}
    (hn : ((load source config name st).2.store.lookup? n).isSome) :
    (st.store.lookup? n).isSome ∨ Wanted source final listed n := by
  have hrun := runs_load h hst name
  cases hm : (load source config name st).1 with
  | ok id =>
    obtain ⟨hid, hdefined, hacc⟩ := hrun.ok id hm
    have hdefined : (((load source config name st).2.store).get id).isPlaceholder = false := by
      simpa using hdefined
    have hw : Wanted source final listed name := by
      cases hsource : source name with
      | some stub => exact .listed hname (by rw [hsource]; rfl)
      | none =>
        cases hown : Store.initial.lookup? name with
        | some i => exact .seed (by rw [hown]; rfl)
        | none =>
          rw [hrun.inv.standing.get_of_unknown hid hsource hown] at hdefined
          cases hdefined
    exact hacc hsettled hfinal (by simpa using hw) n hn
  | error e =>
    rcases hrun.bad e hm with hf | ⟨_, _, hsame⟩
    · exact hf.elim
    · rw [hsame] at hn
      exact Or.inl hn

theorem holds_loads (hst : (completion source config final listed).Holds [] st)
    (names : List String) :
    (completion source config final listed).Holds [] (loads source config st names) ∧
      st.store.Grows (loads source config st names).store := by
  induction names generalizing st with
  | nil => exact ⟨hst, .refl _⟩
  | cons name names ih =>
    have hrun := runs_load h hst name
    obtain ⟨hholds, hgrows⟩ := ih hrun.inv
    exact ⟨hholds, Store.Grows.trans hrun.le hgrows⟩

theorem known_loads (hst : (completion source config final listed).Holds [] st)
    {names : List String} {name : String} (hmem : name ∈ names) (hname : (source name).isSome) :
    ((loads source config st names).store.lookup? name).isSome := by
  induction names generalizing st with
  | nil => simp at hmem
  | cons first names ih =>
    have hrun := runs_load h hst first
    rcases List.mem_cons.mp hmem with rfl | hmem
    · obtain ⟨id, hid⟩ := Option.isSome_iff_exists.mp (known_load h hst hname)
      exact Option.isSome_iff_exists.mpr ⟨id, (holds_loads h hrun.inv names).2.lookup? hid⟩
    · exact ih hrun.inv hmem

theorem accounts_loads (hst : (completion source config final listed).Holds [] st)
    {names : List String} (hnames : ∀ n ∈ names, n ∈ listed)
    (hsettled : Settled source config final)
    (hfinal : (loads source config st names).store.Grows final) {n : String}
    (hn : ((loads source config st names).store.lookup? n).isSome) :
    (st.store.lookup? n).isSome ∨ Wanted source final listed n := by
  induction names generalizing st with
  | nil => exact Or.inl hn
  | cons name names ih =>
    have hrun := runs_load h hst name
    rcases ih hrun.inv (fun n hn => hnames n (by simp [hn])) hfinal hn with hn | hw
    · exact accounts_load h hst (hnames name (by simp)) hsettled
        ((holds_loads h hrun.inv names).2.trans hfinal) hn
    · exact Or.inr hw

theorem admits_exactly {name : String} {stub : ClassStub} (hstub : source name = some stub) :
    (completion source config final listed).Admits [] name stub fun enclosing s =>
      exactly s enclosing where
  faulty _ _ := rfl
  cls _ _ _ _ := Iff.rfl
  le _ _ := ⟨fun _ _ hi => hi, fun _ _ hv => Or.inr hv, fun hf => hf⟩
  mono st st' hst hst' hle :=
    hst.standing.exactly_stable h hst'.standing hle hstub fun m hm hmem => by
    obtain rfl := List.mem_singleton.mp hmem
    exact h.acyclic m hm
  symbols _ _ _ _ _ _ := rfl

theorem ends_later {stack : List String} {s t : Store} (hs : Standing source stack s)
    (ht : Standing source [] t) (hle : s.Grows t) {name : String} {stub : ClassStub}
    (hstub : source name = some stub)
    (hfree : ∀ m, Relation.TransGen (EnclosedBy source) name m → m ∉ stack) {id : ClassId}
    {decl : ClassDecl}
    (hend : (Script.classDecl id stub).Ends (exactly s (enclosingIn s stub)) (some decl)) :
    (Script.classDecl id stub).Ends (exactly t (enclosingIn t stub)) (some decl) := by
  have hfollows := follows_of_classDecl (fun _ _ hi => hi) hend
  rw [enclosingIn_mono hle hfollows.declaring]
  exact hend.mono (hs.exactly_stable h ht hle hstub hfree)

theorem ends_load (hst : (completion source config final listed).Holds [] st) {name : String}
    {stub : ClassStub} (hstub : source name = some stub)
    (hnew : ∀ id, st.store.lookup? name = some id → (st.store.get id).isPlaceholder = true) :
    ∃ id, (load source config name st).2.store.lookup? name = some id ∧
      (Script.classDecl id stub).Ends
        (exactly (load source config name st).2.store
          (enclosingIn (load source config name st).2.store stub))
        (some ((load source config name st).2.store.get id)) := by
  have hR : (completion source config final listed).Sustained := sustained_completion h
  have hentered := hst.enter hR trivial hstub (by simp) hnew
  have hresolve : (completion source config final listed).Resolves [name]
      (Regime.mentioned source config (config.maxDepth - 1)) :=
    Regime.resolves_mentioned hR h.faithful (Regime.depth_cons _ _ (Regime.depth_nil config))
  obtain ⟨hinv, hle, hok, hbad⟩ :=
    Regime.runs_classDecl hR (admits_exactly h hstub) hresolve hentered hstub
    (Store.lookup?_intern st.store name)
  have heq : load source config name st = loadWith.loadStub source config
      (Regime.mentioned source config (config.maxDepth - 1)) name st := by
    rw [load, Regime.loadWithin_eq]
    refine Regime.loadWith_of_undefined fun id hid => ⟨hst.not_mem_loaded hnew, ?_, hnew id hid⟩
    rw [hst.inProgress]
    simp
  rw [Regime.loadStub_eq st hstub] at heq
  have hloaded := (runs_load h hst name).inv.standing
  rcases hm : classDecl config (Regime.mentioned source config (config.maxDepth - 1))
    (st.store.intern name).1 stub
    (Regime.entered st name) with ⟨e | decl, st'⟩
  · exact (hbad e (by rw [hm])).elim
  · rw [hm] at hinv hle heq
    obtain ⟨names, htrace, _⟩ := hok decl (by rw [hm])
    rw [hm] at htrace
    have hid : st'.store.lookup? name = some (st.store.intern name).1 :=
      Store.Grows.lookup? hle (Store.lookup?_intern st.store name)
    obtain ⟨_, _, hbody⟩ := Script.ends_classDecl htrace.ends
    obtain ⟨_, _, _, _, hname, _⟩ := Script.ends_classBody hbody
    have hnameid : decl.name = st'.store.name (st.store.intern name).1 := by
      rw [hname, h.faithful name stub hstub, Store.name_of_lookup? hid]
    have hgrows := Store.grows_define (hinv.isPlaceholder hid) hnameid
    rw [heq] at hloaded ⊢
    refine ⟨_, hgrows.lookup? hid, ?_⟩
    have hget :
        (st'.store.define (st.store.intern name).1 decl).get (st.store.intern name).1 = decl :=
      Store.get_define_self (Store.index_lt_of_lookup? hid)
    change (Script.classDecl _ stub).Ends _ (some ((st'.store.define _ decl).get _))
    rw [hget]
    refine ends_later h hinv.standing hloaded hgrows hstub ?_ htrace.ends
    intro m hm hmem
    obtain rfl := List.mem_singleton.mp hmem
    exact h.acyclic m hm

end Loads

section Member

/-- A generic class with a field of its member class. -/
def outerStub : ClassStub where
  name := "p.Outer"
  flags := .empty
  superclass := some "java.lang.Object"
  interfaces := []
  signature := some "<T:Ljava/lang/Object;>Ljava/lang/Object;"
  declaring := none
  annotations := []
  fields := [⟨"inner", "Lp/Outer$Inner;", none, .empty, []⟩]
  methods := []

/-- A member class with a field whose type is the type variable of the class around it. -/
def innerStub (flags : AccessFlags) : ClassStub where
  name := "p.Outer$Inner"
  flags := flags
  superclass := some "java.lang.Object"
  interfaces := []
  signature := none
  declaring := some "p.Outer"
  annotations := []
  fields := [⟨"item", "Ljava/lang/Object;", some "TT;", .empty, []⟩]
  methods := []

def memberSource (flags : AccessFlags) : Source := fun name =>
  if name = "p.Outer" then some outerStub else if name = "p.Outer$Inner" then some (innerStub flags)
    else none

theorem memberSource_cases {flags : AccessFlags} {name : String} {stub : ClassStub}
    (h : memberSource flags name = some stub) :
    (name = "p.Outer" ∧ stub = outerStub) ∨ (name = "p.Outer$Inner" ∧ stub = innerStub flags) := by
  unfold memberSource at h
  split at h
  · rename_i hname
    exact Or.inl ⟨hname, (Option.some.inj h).symm⟩
  · split at h
    · rename_i hname
      exact Or.inr ⟨hname, (Option.some.inj h).symm⟩
    · cases h

theorem admissible_memberSource (flags : AccessFlags) : Admissible (memberSource flags) {} where
  lenient := rfl
  faithful name stub h := by
    rcases memberSource_cases h with ⟨rfl, rfl⟩ | ⟨rfl, rfl⟩ <;> rfl
  readable name stub h := by
    rcases memberSource_cases h with ⟨rfl, rfl⟩ | ⟨rfl, rfl⟩
    · refine ⟨?_, by simp [outerStub]⟩
      intro f hf
      obtain rfl := List.mem_singleton.mp hf
      exact ⟨.object "p/Outer$Inner", rfl⟩
    · refine ⟨?_, by simp [innerStub]⟩
      intro f hf
      obtain rfl := List.mem_singleton.mp hf
      exact ⟨.object "java/lang/Object", rfl⟩
  acyclic name h := by
    have hlink : ∀ inner outer, EnclosedBy (memberSource flags) inner outer →
        inner = "p.Outer$Inner" ∧ outer = "p.Outer" := by
      rintro inner outer ⟨stub, hstub, hd⟩
      rcases memberSource_cases hstub with ⟨rfl, rfl⟩ | ⟨rfl, rfl⟩
      · cases hd
      · exact ⟨rfl, (Option.some.inj hd).symm⟩
    obtain ⟨_, hfirst, _⟩ := Relation.TransGen.head'_iff.mp h
    obtain ⟨_, _, hlast⟩ := Relation.TransGen.tail'_iff.mp h
    have hname := (hlink _ _ hfirst).1.symm.trans (hlink _ _ hlast).2
    exact absurd hname (by decide)
  bounded := by
    refine ⟨["p.Outer", "p.Outer$Inner"], ?_, by decide⟩
    intro name stub h
    rcases memberSource_cases h with ⟨rfl, _⟩ | ⟨rfl, _⟩ <;> simp

end Member

section Order

variable {source : Source} {config : Config} (h : Admissible source config)
include h

theorem standing_loadAll (names : List String) :
    Standing source [] (loadAll source config names).store :=
  (holds_loads h (holds_start source config .initial []) names).1.standing

theorem known_of_perm {l₁ l₂ : List String} (hperm : l₁.Perm l₂)
    (h₁ : Settled source config (loadAll source config l₁).store)
    (h₂ : Settled source config (loadAll source config l₂).store) {name : String}
    (hname : ((loadAll source config l₁).store.lookup? name).isSome) :
    ((loadAll source config l₂).store.lookup? name).isSome := by
  have hknown : ∀ n ∈ l₂, (source n).isSome → ((loadAll source config l₂).store.lookup? n).isSome :=
    fun n hn hsource => known_loads h (holds_start source config .initial []) hn hsource
  have hw : Wanted source (loadAll source config l₁).store l₁ name := by
    rcases accounts_loads h (holds_start source config _ l₁) (fun n hn => hn) h₁
      (.refl _) hname with hseed | hw
    · exact .seed hseed
    · exact hw
  exact (Standing.wanted_alike h (standing_loadAll h l₁) (standing_loadAll h l₂) h₁ h₂
    (fun n hn => hperm.mem_iff.mp hn) hknown hw).2

theorem agrees_of_settled {l₁ l₂ : List String} (hperm : l₁.Perm l₂)
    (h₁ : Settled source config (loadAll source config l₁).store)
    (h₂ : Settled source config (loadAll source config l₂).store) :
    (loadAll source config l₁).store.Agrees (loadAll source config l₂).store := by
  intro name
  have halike := Standing.alike h (standing_loadAll h l₁) (standing_loadAll h l₂) h₁ h₂ name
  cases hi : (loadAll source config l₁).store.lookup? name with
  | none =>
    cases hj : (loadAll source config l₂).store.lookup? name with
    | none => rfl
    | some j =>
      have hback : ((loadAll source config l₁).store.lookup? name).isSome :=
        known_of_perm h hperm.symm h₂ h₁ (by rw [hj]; rfl)
      rw [hi] at hback
      cases hback
  | some i =>
    have hknown : ((loadAll source config l₂).store.lookup? name).isSome :=
      known_of_perm h hperm h₁ h₂ (by rw [hi]; rfl)
    obtain ⟨j, hj⟩ := Option.isSome_iff_exists.mp hknown
    rw [hj, Option.map_some, Option.map_some, halike i j hi hj]

theorem settled_of_static (hstatic : ∀ name stub, source name = some stub → stub.declaring.isSome →
    stub.flags.isStatic = true) (l : List String) :
    Settled source config (loadAll source config l).store := by
  intro name stub id hstub hid hown
  refine (classDecl_intern_iff h.lenient).mpr ?_
  have hstanding := standing_loadAll h l
  have hdefined := hstanding.complete.defined name id (by rw [hstub]; rfl) hid (by simp)
  obtain ⟨stub', hstub', hconverted⟩ := hstanding.converted hid hdefined hown
  obtain rfl := Option.some.inj (hstub.symm.trans hstub')
  have hnone : enclosingIn (loadAll source config l).store stub = none := by
    cases hd : stub.declaring with
    | none => simp [enclosingIn, hd]
    | some outer => simp [enclosingIn, hstatic name stub hstub (by rw [hd]; rfl)]
  rw [Converted, hnone] at hconverted
  rw [hnone]
  have hle : (loosely (loadAll source config l).store none).Le
      (exactly (loadAll source config l).store none) := by
    refine ⟨fun _ _ hi => hi, ?_, fun hf => hf⟩
    rintro symbol v (rfl | rfl)
    · rfl
    · rfl
  exact Script.Ends.mono hle hconverted

end Order

/-- The order in which the names of a list are loaded does not matter for any list exactly if each
list leaves a store in which every class is declared as it would be declared again. -/
theorem order_irrelevant_iff_settled {source : Source} {config : Config}
    (h : Admissible source config) :
    (∀ l₁ l₂ : List String, l₁.Perm l₂ →
      (loadAll source config l₁).store.Agrees (loadAll source config l₂).store) ↔
      ∀ l, Settled source config (loadAll source config l).store := by
  constructor
  · intro horder l name stub id hstub hid hown
    refine (classDecl_intern_iff h.lenient).mpr ?_
    -- the class is loaded by itself first, or once more after all others, which changes nothing
    have hdefined :=
      (standing_loadAll h l).complete.defined name id (by rw [hstub]; rfl) hid (by simp)
    have hlast : loadAll source config (l ++ [name]) = loadAll source config l := by
      have hagain := load_of_defined source config hid hdefined
      simp only [loadAll, loads, List.foldl_append, List.foldl_cons, List.foldl_nil] at hagain ⊢
      rw [hagain]
    have hagrees := horder (name :: l) (l ++ [name]) (List.perm_append_singleton name l).symm
    rw [hlast] at hagrees
    have hstart := holds_start source config .initial []
    obtain ⟨i, hi, hend⟩ := ends_load h hstart hstub (by simp [hown])
    have hfirst := (runs_load h hstart name).inv
    obtain ⟨hholds, hgrows⟩ := holds_loads h hfirst l
    have hdefined' := hfirst.standing.complete.defined name i (by rw [hstub]; rfl) hi (by simp)
    have hlater := ends_later h hfirst.standing hholds.standing hgrows hstub (by simp) hend
    rw [← hgrows.get_eq i hdefined'] at hlater
    exact Standing.ends_of_agrees h hholds.standing (standing_loadAll h l) hagrees hstub
      (hgrows.lookup? hi) hid
      hlater
  · intro hsettled l₁ l₂ hperm
    exact agrees_of_settled h hperm (hsettled l₁) (hsettled l₂)

/-- Loaded after the class around it a member class loses the variable of that class, loaded before
it does not. -/
theorem member_differs_after_outer :
    Admissible (memberSource .empty) {} ∧
      ["p.Outer", "p.Outer$Inner"].Perm ["p.Outer$Inner", "p.Outer"] ∧
      ¬ (loadAll (memberSource .empty) {} ["p.Outer", "p.Outer$Inner"]).store.Agrees
        (loadAll (memberSource .empty) {} ["p.Outer$Inner", "p.Outer"]).store := by
  refine ⟨admissible_memberSource .empty, .swap _ _ _, ?_⟩
  intro h
  have hkinds := congrArg (Option.map fun c => c.fields.map (·.type.kind)) (h "p.Outer$Inner")
  revert hkinds
  decide +kernel

/-- As a static class the member sees no variable of the class around it, and any order will do. -/
theorem static_member_loads_in_any_order :
    Admissible (memberSource (.ofBits [AccessFlags.staticBit])) {} ∧
      ∀ l₁ l₂ : List String, l₁.Perm l₂ →
      (loadAll (memberSource (.ofBits [AccessFlags.staticBit])) {} l₁).store.Agrees
        (loadAll (memberSource (.ofBits [AccessFlags.staticBit])) {} l₂).store := by
  have h := admissible_memberSource (.ofBits [AccessFlags.staticBit])
  refine ⟨h, (order_irrelevant_iff_settled h).mpr (settled_of_static h ?_)⟩
  intro name stub hstub hd
  rcases memberSource_cases hstub with ⟨_, rfl⟩ | ⟨_, rfl⟩
  · cases hd
  · decide

end JvmTypes.Loader
