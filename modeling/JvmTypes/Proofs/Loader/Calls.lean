import JvmTypes.Proofs.Loader.Course
/-!
# Calls on a store

A store is used in turn by code that interns names and by loaders that are asked for classes. What
a call leaves behind is told for whole lists of calls, whatever sources the loaders read and
however their loads end.
-/
namespace JvmTypes.Loader

/-- A use of the store: a name is interned, a loader is asked for a class, or a new loader takes
over. -/
inductive Call where
  | intern (name : String)
  | load (source : Source) (config : Config) (name : String)
  | ensure (source : Source) (config : Config) (name : String)
  | newLoader

namespace Call

def perform : Call → State → State
  | .intern name, st => { st with store := (st.store.intern name).2 }
  | .load source config name, st => (Loader.load source config name st).2
  | .ensure source config name, st => (Loader.ensure source config name st).2
  | .newLoader, st => { store := st.store }

def loader? : Call → Option (Source × Config)
  | .load source config _ => some (source, config)
  | .ensure source config _ => some (source, config)
  | .intern _ => none
  | .newLoader => none

/-- A loader that is called has stubs under the names that it asks for only. -/
def Faithful (c : Call) : Prop :=
  ∀ source config, c.loader? = some (source, config) → Loader.Faithful source

@[simp] theorem faithful_intern (name : String) : (intern name).Faithful := by
  simp [Faithful, loader?]

@[simp] theorem faithful_load {source : Source} {config : Config} {name : String} :
    (load source config name).Faithful ↔ Loader.Faithful source := by
  simp [Faithful, loader?]

theorem faithful_loads {source : Source} (hsource : Loader.Faithful source) (config : Config)
    (names : List String) : ∀ c ∈ names.map (load source config), c.Faithful := by
  intro c hc
  obtain ⟨name, _, rfl⟩ := List.mem_map.mp hc
  exact faithful_load.mpr hsource

@[simp] theorem faithful_ensure {source : Source} {config : Config} {name : String} :
    (ensure source config name).Faithful ↔ Loader.Faithful source := by
  simp [Faithful, loader?]

@[simp] theorem faithful_newLoader : newLoader.Faithful := by
  simp [Faithful, loader?]

end Call

def performAll (calls : List Call) (st : State) : State :=
  calls.foldl (fun st c => c.perform st) st

def after (calls : List Call) : State := performAll calls { store := .initial }

theorem after_append (calls later : List Call) :
    after (calls ++ later) = performAll later (after calls) :=
  List.foldl_append

/-- The source that has these stubs, of two with one name the first. -/
def ofStubs (stubs : List ClassStub) : Source := fun name => stubs.find? (·.name = name)

theorem faithful_ofStubs (stubs : List ClassStub) : Faithful (ofStubs stubs) := by
  intro name stub h
  simpa using List.find?_some h

theorem mem_of_ofStubs {stubs : List ClassStub} {name : String} {stub : ClassStub}
    (h : ofStubs stubs name = some stub) : stub ∈ stubs ∧ stub.name = name :=
  ⟨List.mem_of_find?_eq_some h, faithful_ofStubs stubs name stub h⟩

def bareStub (name : String) : ClassStub where
  name := name
  flags := .empty
  superclass := some "java.lang.Object"
  interfaces := []
  signature := none
  declaring := none
  annotations := []
  fields := []
  methods := []

section Kept

variable {kept : Store → Prop}
  (hintern : ∀ s : Store, s.Sound → kept s → ∀ name, kept (s.intern name).2)
include hintern

theorem Call.holds {c : Call} (hc : ∀ source config, c.loader? = some (source, config) →
      Loader.Faithful source ∧ (keeping kept source config).Sustained)
    {st : State} (hst : ∀ source config, (keeping kept source config).Holds [] st)
    (source : Source) (config : Config) :
    (keeping kept source config).Holds [] (c.perform st) := by
  cases c with
  | intern name =>
    have hkept := hst source config
    exact hkept.intern (hintern st.store hkept.sound hkept.kept name)
  | load source' config' name =>
    obtain ⟨hsource, hsustained⟩ := hc source' config' rfl
    exact keeping_load hsource hsustained name (hst source' config') source config
  | ensure source' config' name =>
    obtain ⟨hsource, hsustained⟩ := hc source' config' rfl
    exact keeping_ensure hsource hsustained name (hst source' config') source config
  | newLoader => exact keeping_newLoader (hst source config)

theorem holds_performAll {calls : List Call}
    (hcalls : ∀ c ∈ calls, ∀ source config, c.loader? = some (source, config) →
      Faithful source ∧ (keeping kept source config).Sustained)
    {st : State} (hst : ∀ source config, (keeping kept source config).Holds [] st)
    (source : Source) (config : Config) :
    (keeping kept source config).Holds [] (performAll calls st) := by
  induction calls generalizing st with
  | nil => exact hst source config
  | cons c calls ih =>
    refine ih (fun d hd => hcalls d (by simp [hd])) ?_
    intro source' config'
    exact Call.holds hintern (hcalls c (by simp)) hst source' config'

theorem holds_after (hstart : kept .initial) {calls : List Call}
    (hcalls : ∀ c ∈ calls, ∀ source config, c.loader? = some (source, config) →
      Faithful source ∧ (keeping kept source config).Sustained)
    (source : Source) (config : Config) :
    (keeping kept source config).Holds [] (after calls) := by
  apply holds_performAll hintern hcalls
  intro source' config'
  exact ⟨rfl, .nil, Store.sound_initial, .refl _, by simp, by simp, hstart⟩

end Kept

/-- Every load keeps this much. -/
abbrev steady (source : Source) (config : Config) : Regime source config :=
  keeping (fun _ => True) source config

theorem sustained_steady (source : Source) (config : Config) : (steady source config).Sustained :=
  sustained_keeping (fun _ _ _ _ => trivial) fun _ _ _ _ _ _ _ _ _ _ _ => trivial

theorem steady_perform {c : Call} (hc : c.Faithful) {st : State}
    (hst : ∀ source config, (steady source config).Holds [] st) (source : Source)
    (config : Config) : (steady source config).Holds [] (c.perform st) :=
  Call.holds (fun _ _ _ _ => trivial) (fun source config hloader => ⟨hc source config hloader,
    sustained_steady source config⟩) hst source config

theorem steady_after {calls : List Call} (hcalls : ∀ c ∈ calls, c.Faithful) (source : Source)
    (config : Config) : (steady source config).Holds [] (after calls) :=
  holds_after (fun _ _ _ _ => trivial) trivial
    (fun c hc source config hloader => ⟨hcalls c hc source config hloader,
      sustained_steady source config⟩) source config

theorem sustained_reached (source : Source) (config : Config) :
    (keeping Store.Reached source config).Sustained :=
  sustained_keeping (fun _ _ h name => .intern name h)
    fun _ _ _ _ id decl h _ hid _ hname =>
      .define id decl (hname.trans (Store.name_of_lookup? hid).symm) h.kept

theorem reached_after {calls : List Call} (hcalls : ∀ c ∈ calls, c.Faithful) :
    (after calls).store.Reached :=
  (holds_after (fun _ _ h name => .intern name h) .initial
    (fun c hc source config hloader => ⟨hcalls c hc source config hloader,
      sustained_reached source config⟩) (fun _ => none) {}).kept

theorem undefined_of_error {source : Source} {config : Config} (hsource : Faithful source)
    {st st' : State} (hst : (steady source config).Holds [] st) {name : String} {e : LoadError}
    (heq : load source config name st = (.error e, st')) {id : ClassId}
    (hid : st'.store.lookup? name = some id) : (st'.store.get id).isPlaceholder = true := by
  rw [load, Regime.loadWithin_eq] at heq
  rcases loadWith_cases hst (Regime.mentioned source config (config.maxDepth - 1)) name with
    ⟨i, _, hknown⟩ | ⟨_, hundefined, hnone⟩ | ⟨stub, henters, hstub⟩
  · rw [heq] at hknown
    cases hknown
  · rw [heq] at hnone
    obtain ⟨-, rfl⟩ := Prod.mk.inj hnone
    exact hundefined id hid
  · rw [hstub, Regime.loadStub_eq st henters.stub] at heq
    have hentered := henters.holds (sustained_steady source config) hst
    have hencloses := encloses_mentioned (sustained_steady source config) hsource
      (Regime.depth_cons name _ (Regime.depth_nil config))
    have hconverted :=
      Frame.steps_classDecl hencloses config (st.store.intern name).1 stub hentered
    rcases hm : classDecl config (Regime.mentioned source config (config.maxDepth - 1))
      (st.store.intern name).1 stub (Regime.entered st name) with ⟨e' | decl, st₁⟩
    · rw [hm] at heq hconverted
      obtain ⟨-, rfl⟩ := Prod.mk.inj heq
      exact hconverted.1.isPlaceholder hid
    · rw [hm] at heq
      cases (Prod.mk.inj heq).1

/-- Whatever was called before: a load that succeeds ends at its class, which is defined, and one
that fails leaves its class undefined. No class stays in progress, and on the way never more classes
are in progress than the depth allows, each of them once. -/
theorem progress_of_calls (calls : List Call) (hcalls : ∀ c ∈ calls, c.Faithful) (source : Source)
    (hsource : Faithful source) (config : Config) (name : String) :
    (∀ id st, load source config name (after calls) = (.ok id, st) →
      st.store.lookup? name = some id ∧ (st.store.get id).isPlaceholder = false) ∧
    (∀ e st, load source config name (after calls) = (.error e, st) →
      ∀ id, st.store.lookup? name = some id → (st.store.get id).isPlaceholder = true) ∧
    ensure source config name (after calls) =
      ((load source config name (after calls)).1.toOption,
        (load source config name (after calls)).2) ∧
    (after calls).inProgress = [] ∧ (load source config name (after calls)).2.inProgress = [] ∧
    ∀ m, Passes source config (config.maxDepth - 1) name (after calls) m →
      m.state.inProgress.Nodup ∧ m.state.inProgress.length ≤ max 1 config.maxDepth := by
  have hst := steady_after hcalls source config
  have hload := Regime.loads_load (sustained_steady source config) hsource name _ hst trivial
  refine ⟨?_, ?_, ?_, hst.inProgress, hload.inv.inProgress, ?_⟩
  · intro id st heq
    obtain ⟨_, _, hid, hdefined, _⟩ := hload.eq_ok heq
    refine ⟨hid, ?_⟩
    simpa using hdefined
  · intro e st heq id hid
    exact undefined_of_error hsource hst heq hid
  · rcases hm : load source config name (after calls) with ⟨e | id, st⟩
    · simp only [ensure, hm]
      rfl
    · simp only [ensure, hm]
      rfl
  · intro m hm
    obtain ⟨inner, hholds, hlength⟩ :=
      hm.holds (sustained_steady source config) hsource hst (Regime.depth_nil config)
    rw [List.append_nil] at hholds
    rw [hholds.inProgress]
    constructor
    · exact hholds.nodup
    · omega

/-- A class with a field that no descriptor describes. -/
def brokenStub : ClassStub :=
  { bareStub "p.Broken" with fields := [⟨"f", "Q", none, .empty, []⟩] }

def brokenSource : Source :=
  ofStubs [{ bareStub "p.A" with superclass := some "p.Broken" }, brokenStub]

def brokenState : State := after [.load brokenSource {} "p.Broken"]

/-- Both classes are in progress before the load of the first fails with that of the second. -/
theorem passes_broken : ∃ m, Passes brokenSource {} 63 "p.A" brokenState m ∧
    m.state.inProgress = ["p.Broken", "p.A"] := by
  have hfirst : Enters brokenSource brokenState "p.A"
      { bareStub "p.A" with superclass := some "p.Broken" } :=
    .of_unknown rfl (by decide +kernel) (by decide +kernel) (by decide +kernel)
  have hsecond : Enters brokenSource (Regime.entered brokenState "p.A") "p.Broken" brokenStub := by
    refine ⟨rfl, by decide +kernel, by decide +kernel, ?_⟩
    have hplace : (Regime.entered brokenState "p.A").store.lookup? "p.Broken" = some ⟨14⟩ := by
      decide +kernel
    intro id hid
    obtain rfl := Option.some.inj (hplace.symm.trans hid)
    decide +kernel
  refine ⟨_, .within hfirst (Or.inl ⟨rfl, rfl⟩) (.enters hsecond), ?_⟩
  decide +kernel

/-- The load fails inside the load of the super class, once more after that failed by itself. -/
theorem progress_of_broken_calls :
    Faithful brokenSource ∧
    (∃ e st, load brokenSource {} "p.A" brokenState = (.error e, st) ∧
      (∀ id, st.store.lookup? "p.A" = some id → (st.store.get id).isPlaceholder = true) ∧
      st.inProgress = []) ∧
    ∃ m, Passes brokenSource {} 63 "p.A" brokenState m ∧
      m.state.inProgress = ["p.Broken", "p.A"] ∧ m.state.inProgress.length ≤ 64 := by
  have hfaithful : Faithful brokenSource := faithful_ofStubs _
  have hcalls : ∀ c ∈ [Call.load brokenSource {} "p.Broken"], c.Faithful := by
    simpa using hfaithful
  obtain ⟨_, hfailed, _, _, hprogress, hdepth⟩ :=
    progress_of_calls [.load brokenSource {} "p.Broken"] hcalls brokenSource hfaithful {} "p.A"
  refine ⟨hfaithful, ?_, ?_⟩
  · have hfails : (load brokenSource {} "p.A" brokenState).1.toOption.isNone = true := by
      decide +kernel
    rcases hm : load brokenSource {} "p.A" brokenState with ⟨e | id, st⟩
    · rw [brokenState] at hm
      rw [hm] at hprogress
      exact ⟨e, st, rfl, hfailed e st hm, hprogress⟩
    · rw [hm] at hfails
      cases hfails
  · obtain ⟨m, hm, hprogress⟩ := passes_broken
    exact ⟨m, hm, hprogress, (hdepth m hm).2⟩

end JvmTypes.Loader
