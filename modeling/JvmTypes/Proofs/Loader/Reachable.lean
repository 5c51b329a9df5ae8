import JvmTypes.Proofs.Loader.Coherence
import JvmTypes.Proofs.Loader.Loading
/-!
# Reachable stores

The stores that any number of loads leads to, with any sources and any configurations, also where
loads fail. All that such a store defines is coherent.
-/
namespace JvmTypes

theorem Loader.seenFrom_mono {s t : Store} (h : s.Grows t) (hs : s.Sound)
    {enclosing : Option ClassId} {symbol : String} {v : TypeVariable}
    (hv : seenFrom s enclosing symbol = some v) :
    seenFrom t enclosing symbol = some v := by
  obtain ⟨outer, ho, hv⟩ := Option.bind_eq_some_iff.mp hv
  refine Option.bind_eq_some_iff.mpr ⟨outer, ho, ?_⟩
  rw [Scope.ofClass_eq] at hv ⊢
  obtain ⟨r, hr, rfl⟩ := Option.map_eq_some_iff.mp hv
  exact Option.map_eq_some_iff.mpr ⟨r, h.findVariable? hs hr, rfl⟩

theorem Loader.none_or_seenFrom_mono {s t : Store} (h : s.Grows t) (hs : s.Sound)
    {enclosing : Option ClassId} {symbol : String} {v : Option TypeVariable}
    (hv : v = none ∨ v = seenFrom s enclosing symbol) :
    v = none ∨ v = seenFrom t enclosing symbol := by
  rcases hv with rfl | rfl
  · exact Or.inl rfl
  · cases hseen : seenFrom s enclosing symbol with
    | none => exact Or.inl rfl
    | some v => exact Or.inr (seenFrom_mono h hs hseen).symm

theorem Loader.symbol_of_seenFrom {s : Store} {enclosing : Option ClassId} {symbol : String}
    {v : TypeVariable} (hv : seenFrom s enclosing symbol = some v) : v.symbol = symbol := by
  obtain ⟨outer, _, hv⟩ := Option.bind_eq_some_iff.mp hv
  rw [Scope.ofClass_eq] at hv
  obtain ⟨r, hr, rfl⟩ := Option.map_eq_some_iff.mp hv
  exact Store.symbol_of_findVariable? hr

namespace Store

/-- What the store defines without repeated names of type parameters is coherent. -/
def Coherent (s : Store) : Prop :=
  ∀ id, (s.get id).isPlaceholder = false → (s.get id).HasDistinctParameters →
    (s.get id).Coherent s id

theorem Coherent.intern {s : Store} (h : s.Coherent) (hs : s.Sound) (name : String) :
    (s.intern name).2.Coherent := by
  intro id hdefined hdistinct
  have hget := get_intern_of_defined hdefined
  rw [hget] at hdefined hdistinct ⊢
  exact (h id hdefined hdistinct).mono (grows_intern s name) hs

theorem coherent_initial : initial.Coherent := by
  have hplain : ∀ c ∈ seeds, (∀ t ∈ c.shapes, t.kind = .nonGeneric) ∧ c.methods.length = 0 := by
    decide
  intro id hdefined _
  obtain ⟨hshapes, hmethods⟩ := hplain _ (get_initial_mem (index_lt_of_defined hdefined))
  refine ⟨?_, ?_⟩
  · intro t ht
    have hkind := hshapes t ht
    cases t with
    | plain e => exact Shape.wellFormed_plain e
    | array _ | applied _ _ _ | upper _ | lower _ | «variable» _ => simp [Shape.kind] at hkind
  · intro m hm
    simp [List.length_eq_zero_iff.mp hmethods] at hm

end Store

namespace Loader

/-- The stub that a source has for a name is called so. -/
def Faithful (source : Source) : Prop := ∀ name stub, source name = some stub → stub.name = name

/-- A property of stores is kept, whatever is loaded. -/
def keeping (kept : Store → Prop) (source : Source) (config : Config) : Regime source config where
  kept _ s := kept s
  wanted _ _ _ := True
  seen enclosing s symbol v := v = none ∨ v = seenFrom s enclosing symbol
  accounts _ _ _ := True
  faulty := True

def coherence (source : Source) (config : Config) : Regime source config :=
  keeping Store.Coherent source config

theorem enclosing_of_classDecl {A : Answers} {s : Store} {id : ClassId} {stub : ClassStub}
    {decl : ClassDecl} (hA : ∀ name i, A.cls name i → s.lookup? name = some i)
    (h : (Script.classDecl id stub).Ends A (some decl)) :
    enclosingIn s stub = decl.enclosing := by
  obtain ⟨declaring, hdeclaring, hbody⟩ := Script.ends_classDecl h
  obtain ⟨_, _, _, _, _, hflags, hdecl, _⟩ := Script.ends_classBody hbody
  rw [enclosingIn, ClassDecl.enclosing, hflags, hdecl]
  rcases hdeclaring with ⟨hn, rfl⟩ | ⟨outer, d, hs, rfl, hd⟩
  · rw [hn]
    rfl
  · rw [hs, Option.bind_some, hA outer d hd]

theorem definite_coherence {source : Source} {config : Config} {enclosing : Option ClassId}
    {s : Store} :
    ((coherence source config).answers enclosing s).Definite := by
  refine ⟨?_, ?_, ?_⟩
  · intro name i j hi hj
    exact Option.some.inj (hi.symm.trans hj)
  · rintro symbol v w (hv | hv) (hw | hw)
    · simp at hv
    · simp at hv
    · simp at hw
    · exact Option.some.inj (hv.trans hw.symm)
  · rintro symbol v (hv | hv)
    · simp at hv
    · exact symbol_of_seenFrom hv.symm

theorem coherent_define {source : Source} {config : Config} {stack : List String} {st : State}
    {name : String} {stub : ClassStub} {id : ClassId} {decl : ClassDecl}
    (h : (coherence source config).Holds (name :: stack) st) (hid : st.store.lookup? name = some id)
    (hname : decl.name = name)
    (hend : (Script.classDecl id stub).Ends
      ((coherence source config).answers (enclosingIn st.store stub) st.store) (some decl)) :
    (st.store.define id decl).Coherent := by
  have hnameid : decl.name = st.store.name id := by rw [hname, Store.name_of_lookup? hid]
  have hgrows := Store.grows_define (h.isPlaceholder hid) hnameid
  intro other hdefined hdistinct
  by_cases ho : other = id
  · subst ho
    rw [Store.get_define_self (Store.index_lt_of_lookup? hid)] at hdistinct ⊢
    refine Script.classDecl_coherent definite_coherence hend ?_ hdistinct
    intro symbol v hv
    rcases hv with hv | hv
    · simp at hv
    · rw [← enclosing_of_classDecl (fun _ _ hi => hi) hend]
      exact seenFrom_mono hgrows h.sound hv.symm
  · rw [Store.get_define_ne ho] at hdefined hdistinct ⊢
    exact (h.kept other hdefined hdistinct).mono hgrows h.sound

theorem sustained_keeping {kept : Store → Prop} {source : Source} {config : Config}
    (hintern : ∀ s : Store, s.Sound → kept s → ∀ name, kept (s.intern name).2)
    (hdefine : ∀ (stack : List String) (st : State) (name : String) (stub : ClassStub)
      (id : ClassId) (decl : ClassDecl), (keeping kept source config).Holds (name :: stack) st →
      source name = some stub → st.store.lookup? name = some id →
      (Script.classDecl id stub).Ends
        ((keeping kept source config).answers (enclosingIn st.store stub) st.store) (some decl) →
      decl.name = name → kept (st.store.define id decl)) :
    (keeping kept source config).Sustained where
  seen_mono _ _ _ _ _ hs hle hv := none_or_seenFrom_mono hle hs hv
  wanted_mono _ _ _ _ _ h := h
  strict _ := trivial
  enter _ st name _ h _ _ _ _ := hintern st.store h.sound h.kept name
  intern _ st name h _ _ := hintern st.store h.sound h.kept name
  names _ _ _ _ _ _ _ _ _ _ := trivial
  symbols _ _ _ _ _ _ _ _ _ _ := Or.inr rfl
  total _ _ _ _ _ _ _ := trivial
  leave := hdefine
  abandon _ _ _ _ h := h.kept
  accounting := ⟨fun _ => trivial, fun _ _ _ _ _ _ _ _ => trivial, fun _ _ _ _ => trivial⟩
  accounts_intern _ _ := trivial
  accounts_leave _ _ _ _ _ _ _ _ _ _ _ _ _ _ := trivial

theorem sustained_coherence (source : Source) (config : Config) :
    (coherence source config).Sustained :=
  sustained_keeping (fun _ hs h name => h.intern hs name)
    fun _ _ _ _ _ _ h _ hid hend hname => coherent_define h hid hname hend

theorem keeping_of_other {kept : Store → Prop} {source source' : Source} {config config' : Config}
    {stack : List String} {st : State} (h : (keeping kept source config).Holds stack st) :
    (keeping kept source' config').Holds stack st :=
  ⟨h.inProgress, h.nodup, h.sound, h.seeded, h.placeholder, h.loaded, h.kept⟩

theorem store_of_ensure (source : Source) (config : Config) (name : String) (st : State) :
    (ensure source config name st).2 = (load source config name st).2 := by
  rcases hm : load source config name st with ⟨e | id, st'⟩ <;> simp only [ensure, hm]

section Turns

variable {kept : Store → Prop} {source : Source} {config : Config} {st : State}

theorem keeping_load (hsource : Faithful source) (hkept : (keeping kept source config).Sustained)
    (name : String) (hst : (keeping kept source config).Holds [] st) (source' : Source)
    (config' : Config) :
    (keeping kept source' config').Holds [] (load source config name st).2 := by
  have hload := Regime.loads_load hkept hsource name st hst trivial
  exact keeping_of_other hload.inv

theorem keeping_ensure (hsource : Faithful source) (hkept : (keeping kept source config).Sustained)
    (name : String) (hst : (keeping kept source config).Holds [] st) (source' : Source)
    (config' : Config) :
    (keeping kept source' config').Holds [] (ensure source config name st).2 := by
  rw [store_of_ensure]
  exact keeping_load hsource hkept name hst source' config'

theorem keeping_newLoader (hst : (keeping kept source config).Holds [] st) :
    (keeping kept source config).Holds [] { store := st.store } :=
  ⟨rfl, .nil, hst.sound, hst.seeded, by simp, by simp, hst.kept⟩

end Turns

/-- The states of loaders, one after the other, on one store, where all stubs that a source hands
out are of a kind. -/
inductive Supplied (stubs : ClassStub → Prop) : State → Prop
  | start : Supplied stubs { store := .initial }
  | load {st} (source config name) (hsource : Faithful source)
      (hstubs : ∀ n stub, source n = some stub → stubs stub) (h : Supplied stubs st) :
      Supplied stubs (load source config name st).2
  | ensure {st} (source config name) (hsource : Faithful source)
      (hstubs : ∀ n stub, source n = some stub → stubs stub) (h : Supplied stubs st) :
      Supplied stubs (ensure source config name st).2
  | newLoader {st} (h : Supplied stubs st) : Supplied stubs { store := st.store }

theorem Supplied.single (stub : ClassStub) (config : Config) (name : String) :
    Supplied (· = stub) (Loader.load (fun n => if n = stub.name then some stub else none) config
      name { store := .initial }).2 := by
  have hsource : ∀ n found, (if n = stub.name then some stub else none) = some found →
      n = stub.name ∧ found = stub := by
    intro n found h
    split at h
    case isTrue hn => exact ⟨hn, (Option.some.inj h).symm⟩
    case isFalse => cases h
  refine .load _ config name ?_ (fun n found h => (hsource n found h).2) .start
  intro n found h
  obtain ⟨rfl, rfl⟩ := hsource n found h
  rfl

/-- What the runtime classes have and all loads keep holds of every state between two loads. -/
theorem Supplied.holds {stubs : ClassStub → Prop} {kept : Store → Prop} (hstart : kept .initial)
    (hkept : ∀ source config, (∀ n stub, source n = some stub → stubs stub) → Faithful source →
      (keeping kept source config).Sustained) {st : State} (h : Supplied stubs st)
    (source : Source) (config : Config) : (keeping kept source config).Holds [] st := by
  induction h generalizing source config with
  | start => exact ⟨rfl, .nil, Store.sound_initial, .refl _, by simp, by simp, hstart⟩
  | load source' config' name hsource hstubs _ ih =>
    exact keeping_load hsource (hkept source' config' hstubs hsource) name (ih source' config')
      source config
  | ensure source' config' name hsource hstubs _ ih =>
    exact keeping_ensure hsource (hkept source' config' hstubs hsource) name (ih source' config')
      source config
  | newLoader _ ih => exact keeping_newLoader (ih source config)

/-- The states of loaders, one after the other, on one store. -/
inductive Reachable : State → Prop
  | start : Reachable { store := .initial }
  | load {st} (source config name) (hsource : Faithful source) (h : Reachable st) :
      Reachable (load source config name st).2
  | ensure {st} (source config name) (hsource : Faithful source) (h : Reachable st) :
      Reachable (ensure source config name st).2
  | newLoader {st} (h : Reachable st) : Reachable { store := st.store }

namespace Reachable

theorem supplied {st : State} (h : Reachable st) : Supplied (fun _ => True) st := by
  induction h with
  | start => exact .start
  | load source config name hsource _ ih =>
    exact .load source config name hsource (fun _ _ _ => trivial) ih
  | ensure source config name hsource _ ih =>
    exact .ensure source config name hsource (fun _ _ _ => trivial) ih
  | newLoader _ ih => exact .newLoader ih

theorem holds {st : State} (h : Reachable st) (source : Source) (config : Config) :
    (coherence source config).Holds [] st :=
  h.supplied.holds Store.coherent_initial (fun source config _ _ =>
    sustained_coherence source config) source config

variable {st : State} (h : Reachable st)
include h

theorem sound : st.store.Sound := (h.holds (fun _ => none) {}).sound

theorem seeded : Store.initial.Grows st.store := (h.holds (fun _ => none) {}).seeded

theorem coherent : st.store.Coherent := (h.holds (fun _ => none) {}).kept

theorem coherent_get {id : ClassId} (hdistinct : (st.store.get id).HasDistinctParameters) :
    (st.store.get id).Coherent st.store id := by
  cases hp : (st.store.get id).isPlaceholder with
  | false => exact h.coherent id hp hdistinct
  | true =>
    rw [h.sound.bare id hp]
    refine ⟨?_, by simp [ClassDecl.placeholder]⟩
    intro t ht
    obtain rfl : t = .object := by simpa [ClassDecl.shapes, ClassDecl.placeholder] using ht
    exact Shape.wellFormed_plain _

end Reachable

theorem Supplied.reachable {stubs : ClassStub → Prop} {st : State} (h : Supplied stubs st) :
    Reachable st := by
  induction h with
  | start => exact .start
  | load source config name hsource _ _ ih => exact .load source config name hsource ih
  | ensure source config name hsource _ _ ih => exact .ensure source config name hsource ih
  | newLoader _ ih => exact .newLoader ih

end Loader

end JvmTypes
