import JvmTypes.Proofs.Loader.EnclosingChains
import JvmTypes.Proofs.Loader.LoadOrder
import JvmTypes.Proofs.Loader.NestingLimit
import JvmTypes.Proofs.Loader.Occurrences
/-!
# Loads that close over references

While a class is in progress, a reference to it is to a placeholder, and nothing but the loads
around says that the class will be defined. At the end of a load nothing is in progress. If then no
class was left out, since the limit of nesting was not reached, the only placeholders are the names
that the source does not know.
-/
namespace JvmTypes.Loader

/-- While the classes are loaded one after the other, none is asked for with as many classes in
progress as the depth allows. -/
def StaysBelowLimit (source : Source) (config : Config) (names : List String) : Prop :=
  ∀ before name rest, names = before ++ name :: rest → ∀ st n,
    AsksFor source config (config.maxDepth - 1) name (loadAll source config before) st n →
    st.inProgress.length < config.maxDepth

variable {source : Source} {config : Config} {names before rest : List String} {name : String}

theorem loadAll_eq_after (source : Source) (config : Config) (names : List String) :
    loadAll source config names = after (names.map (.load source config)) := by
  rw [loadAll, loads, after, performAll, List.foldl_map]
  rfl

theorem loadAll_append_singleton (source : Source) (config : Config) (names : List String)
    (name : String) : loadAll source config (names ++ [name]) =
      (load source config name (loadAll source config names)).2 := by
  rw [loadAll, loads, List.foldl_append]
  rfl

namespace StaysBelowLimit

theorem front (h : StaysBelowLimit source config (names ++ rest)) :
    StaysBelowLimit source config names := by
  rintro before name after rfl
  exact h before name (after ++ rest) (by simp)

theorem last (h : StaysBelowLimit source config (names ++ [name])) {st : State} {n : String}
    (hasks : AsksFor source config (config.maxDepth - 1) name (loadAll source config names) st n) :
    st.inProgress.length < config.maxDepth :=
  h names name [] rfl st n hasks

end StaysBelowLimit

section Loaded

variable (hsource : Faithful source)
include hsource

theorem steady_loadAll (config : Config) (names : List String) :
    (steady source config).Holds [] (loadAll source config names) := by
  rw [loadAll_eq_after]
  exact steady_after (Call.faithful_loads hsource config names) source config

theorem sourced_loadAll (config : Config) (names : List String) :
    Sourced source (loadAll source config names).store := by
  rw [loadAll_eq_after]
  exact sourced_after hsource (Call.readsFrom_loads source config names)

theorem closed_loadAll (config : Config) (names : List String) :
    (loadAll source config names).store.Closed := by
  rw [loadAll_eq_after]
  exact closed_after (Call.faithful_loads hsource config names)

omit hsource in
theorem Enters.known {st : State} {stub : ClassStub} (h : Enters source st name stub)
    {stack : List String} (hknown : ∀ m ∈ stack, (source m).isSome) :
    ∀ m ∈ name :: stack, (source m).isSome := by
  intro m hm
  rcases List.mem_cons.mp hm with rfl | hm
  · rw [h.stub]
    rfl
  · exact hknown m hm

theorem AsksFor.known {levels : Nat} {name n : String} {st st' : State}
    (h : AsksFor source config levels name st st' n) {stack : List String}
    (hst : (steady source config).Holds stack st)
    (hdepth : config.maxDepth ≤ stack.length + levels + 1)
    (hknown : ∀ m ∈ stack, (source m).isSome) :
    ∃ stack', (steady source config).Holds stack' st' ∧ ∀ m ∈ stack', (source m).isSome := by
  have hR := sustained_steady source config
  induction h generalizing stack with
  | here henters hcomes =>
    exact ⟨_, henters.holds_of_comes hR hsource hst hdepth hcomes, henters.known hknown⟩
  | @within levels name _ _ _ _ _ _ henters hcomes _ ih =>
    exact ih (henters.holds_of_comes hR hsource hst hdepth hcomes)
      (Regime.depth_cons name (levels + 1) hdepth) (henters.known hknown)

end Loaded

/-- A source with fewer classes than the depth allows does not reach the limit. -/
theorem Admissible.staysBelowLimit (h : Admissible source config) (names : List String) :
    StaysBelowLimit source config names := by
  intro before name rest _ st n hasks
  obtain ⟨stack, hst, hknown⟩ := hasks.known h.faithful (steady_loadAll h.faithful config before)
    (Regime.depth_nil config) (by simp)
  rw [hst.inProgress]
  exact h.length_lt hst.nodup hknown

section Unfailing

variable (hsource : Faithful source)
  (hreadable : ∀ name stub, source name = some stub → stub.Readable)
  (hlenient : config.strict = false)
include hsource hreadable hlenient

theorem not_leftOut_loadAll (hbelow : StaysBelowLimit source config names) {n : String}
    (hn : (source n).isSome) : ¬ LeftOut n (loadAll source config names) := by
  induction names using List.reverseRecOn with
  | nil =>
    rintro ⟨id, hid, hp, _⟩
    change (Store.initial.get id).isPlaceholder = true at hp
    rw [Store.defined_initial (Store.index_lt_of_lookup? hid)] at hp
    cases hp
  | append_singleton names name ih =>
    rw [loadAll_append_singleton]
    intro hafter
    obtain ⟨st, hasks, hlength⟩ := exists_asksFor_of_leftOut hsource hlenient hreadable hn _
      (steady_loadAll hsource config names).unfailing (Regime.depth_nil config) (ih hbelow.front)
      hafter
    have hlimit := hbelow.last hasks
    have hdepth := Regime.depth_nil config
    omega

theorem defined_or_unknown (hbelow : StaysBelowLimit source config names) {id : ClassId}
    (hid : id.index < (loadAll source config names).store.size) :
    ((loadAll source config names).store.get id).isPlaceholder = false ∨
      source ((loadAll source config names).store.name id) = none := by
  have hst := steady_loadAll hsource config names
  cases hp : ((loadAll source config names).store.get id).isPlaceholder with
  | false => exact Or.inl rfl
  | true =>
    refine Or.inr (Option.not_isSome_iff_eq_none.mp fun hknown => ?_)
    refine not_leftOut_loadAll hsource hreadable hlenient hbelow hknown
      ⟨id, hst.sound.lookup?_name hid, hp, ?_⟩
    rw [hst.inProgress]
    exact List.not_mem_nil

/-- A load fails for a name that neither the source nor the runtime defines, and for no other. -/
theorem load_outcome (names : List String) (name : String) :
    ((∃ id st, load source config name (loadAll source config names) = (.ok id, st)) ↔
      (source name).isSome ∨ (Store.initial.lookup? name).isSome) ∧
    ∀ e st, load source config name (loadAll source config names) = (.error e, st) →
      e = .notFound name := by
  have hst := steady_loadAll hsource config names
  have hload := Regime.loads_load (sustained_unfailing hlenient hreadable) hsource name _
    hst.unfailing trivial
  rcases hm : load source config name (loadAll source config names) with ⟨e | id, st⟩
  · obtain ⟨_, _, hfaulty | ⟨hnone, rfl, _⟩⟩ := hload.eq_error hm
    · exact hfaulty.elim
    · have hforeign : Store.initial.lookup? name = none := by
        cases hown : Store.initial.lookup? name with
        | none => rfl
        | some i =>
          have hdefined := Store.defined_initial (Store.index_lt_of_lookup? hown)
          have hok := load_of_defined source config (hst.seeded.lookup? hown)
            (by rw [hst.seeded.get_eq i hdefined, hdefined])
          rw [hm] at hok
          cases hok
      refine ⟨iff_of_false ?_ (by simp [hnone, hforeign]), ?_⟩
      · rintro ⟨_, _, hok⟩
        cases hok
      · rintro e _ hfailed
        cases hfailed
        rfl
  · obtain ⟨_, _, hid, hdefined, _⟩ := hload.eq_ok hm
    have hs := sourced_loadAll hsource config (names ++ [name])
    rw [loadAll_append_singleton, hm] at hs
    have hknown : (source name).isSome ∨ (Store.initial.lookup? name).isSome := by
      cases hown : Store.initial.lookup? name with
      | some i => exact Or.inr rfl
      | none =>
        obtain ⟨stub, hstub, _⟩ := hs.declaredFrom_of_lookup? hown hid (by simpa using hdefined)
        exact Or.inl (by rw [hstub]; rfl)
    refine ⟨iff_of_true ⟨id, st, rfl⟩ hknown, ?_⟩
    rintro e _ hfailed
    cases hfailed

theorem AsksFor.resolved {name n : String} {st : State}
    (h : AsksFor source config (config.maxDepth - 1) name (loadAll source config names) st n) :
    let inner := loadWithin source config (config.maxDepth - st.inProgress.length - 1)
    (∃ id st', orIntern inner n st = (.ok id, st') ∧ st'.store.lookup? n = some id) ∧
    ∀ e st', inner n st = (.error e, st') → source n = none ∧ e = .notFound n := by
  intro inner
  have hR := sustained_unfailing hlenient hreadable
  obtain ⟨stack, hst, _⟩ := h.known hsource (steady_loadAll hsource config names)
    (Regime.depth_nil config) (by simp)
  have hloads : (unfailing source config).Loads stack inner := by
    apply Regime.loads_loadWithin hR hsource
    rw [hst.inProgress]
    omega
  constructor
  · have hplace := Regime.resolves_orIntern hR hloads n st hst.unfailing trivial
    rcases hm : orIntern inner n st with ⟨e | id, st'⟩
    · exact (hplace.eq_error hm).2.2.elim
    · exact ⟨id, st', rfl, (hplace.eq_ok hm).2.2.1⟩
  · intro e st' hm
    obtain ⟨_, _, hfaulty | ⟨hnone, he, _⟩⟩ :=
      (hloads n st hst.unfailing trivial).eq_error hm
    · exact hfaulty.elim
    · exact ⟨hnone, he⟩

end Unfailing

/-- As long as the limit of nesting is not reached, loading closes over references: every class that
occurs in a declaration of the store is defined there, or the source does not know it. No load fails
but for a name that is not known, neither one that is called nor one inside of it, and no search for
a type variable goes on forever. -/
theorem loads_close_over_references (hsource : Faithful source)
    (hreadable : ∀ name stub, source name = some stub → stub.Readable)
    (hacyclic : ∀ name, ¬ Relation.TransGen (EnclosedBy source) name name)
    (hlenient : config.strict = false) (hbelow : StaysBelowLimit source config names) :
    let filled := (loadAll source config names).store
    (∀ id, ∀ j ∈ (filled.get id).occurring, j.index < filled.size ∧
      ((filled.get j).isPlaceholder = false ∨ source (filled.name j) = none)) ∧
    ∀ before name rest, names = before ++ name :: rest →
      ((∃ id st, load source config name (loadAll source config before) = (.ok id, st)) ↔
        (source name).isSome ∨ (Store.initial.lookup? name).isSome) ∧
      (∀ e st, load source config name (loadAll source config before) = (.error e, st) →
        e = .notFound name) ∧
      (∀ st n,
        AsksFor source config (config.maxDepth - 1) name (loadAll source config before) st n →
        let inner := loadWithin source config (config.maxDepth - st.inProgress.length - 1)
        (∃ id st', orIntern inner n st = (.ok id, st') ∧ st'.store.lookup? n = some id) ∧
        ∀ e st', inner n st = (.error e, st') → source n = none ∧ e = .notFound n) ∧
      ∀ m, Passes source config (config.maxDepth - 1) name (loadAll source config before) m →
        ∀ outer symbol, m.search = some (outer, symbol) →
          ∃ r, m.state.store.SearchEnds symbol outer r := by
  intro filled
  refine ⟨?_, ?_⟩
  · intro id j hj
    have hplace := closed_loadAll hsource config names id j hj
    exact ⟨hplace, defined_or_unknown hsource hreadable hlenient hbelow hplace⟩
  · intro before name rest _
    obtain ⟨houtcome, hfailure⟩ := load_outcome hsource hreadable hlenient before name
    refine ⟨houtcome, hfailure,
      fun st n hasks => hasks.resolved hsource hreadable hlenient, ?_⟩
    intro m hm outer symbol _
    rw [loadAll_eq_after] at hm
    have hs := hm.sourced hsource (Call.readsFrom_loads source config before)
    have hmember : MemberOf source ≤ EnclosedBy source := fun _ _ h => h.2
    have hends := hs.chainEnds_of_acyclic
      (fun n hcircle => hacyclic n (Relation.TransGen.mono hmember n n hcircle)) outer
    exact Store.SearchEnds.of_chainEnds (Store.chainEnds_enclosing hends) symbol

section Knot

/-- Each of the three classes mentions another, in a bound, as the class around it and as its super
class. Two fields have signatures that are given up, and one of them is of an unknown class. -/
def knotStubs : List ClassStub :=
  [{ bareStub "p.A" with
      signature := some "<T:Lp/B;>Ljava/lang/Object;",
      fields := [⟨"b", "Lp/B;", none, .empty, []⟩] },
    { bareStub "p.A$M" with
      declaring := some "p.A", fields := [⟨"t", "Lp/B;", some "TT;", .empty, []⟩] },
    { bareStub "p.B" with
      superclass := some "p.A$M", fields := [⟨"c", "Lp/C;", some "Q", .empty, []⟩] }]

theorem enclosedBy_knot {inner outer : String} (h : EnclosedBy (ofStubs knotStubs) inner outer) :
    inner = "p.A$M" ∧ outer = "p.A" := by
  obtain ⟨stub, hstub, houter⟩ := h
  obtain ⟨hmem, rfl⟩ := mem_of_ofStubs hstub
  have hall : ∀ stub ∈ knotStubs, ∀ outer, stub.declaring = some outer →
      stub.name = "p.A$M" ∧ outer = "p.A" := by
    simp [knotStubs, bareStub]
  exact hall stub hmem outer houter

theorem admissible_knot : Admissible (ofStubs knotStubs) {} where
  lenient := rfl
  faithful := faithful_ofStubs _
  readable name stub hstub := by
    have hall : ∀ stub ∈ knotStubs, stub.Readable := by decide +kernel
    exact hall stub (mem_of_ofStubs hstub).1
  acyclic := not_transGen_of_single (fun _ _ => enclosedBy_knot) (by decide)
  bounded := by
    refine ⟨knotStubs.map (·.name), ?_, by decide⟩
    intro name stub hstub
    obtain ⟨hmem, hname⟩ := mem_of_ofStubs hstub
    exact List.mem_map.mpr ⟨stub, hmem, hname⟩

/-- All three classes are defined in the end, and the fourth, for which a load fails, stays a
placeholder. -/
theorem loads_close_over_knot :
    let filled := (loadAll (ofStubs knotStubs) {} ["p.A", "p.C"]).store
    StaysBelowLimit (ofStubs knotStubs) {} ["p.A", "p.C"] ∧
    (filled.get ⟨15⟩).occurring = [⟨16⟩, ⟨17⟩] ∧
    (filled.get ⟨16⟩).isPlaceholder = false ∧ (filled.get ⟨17⟩).isPlaceholder = true ∧
    (∀ id, ∀ j ∈ (filled.get id).occurring, j.index < filled.size ∧
      ((filled.get j).isPlaceholder = false ∨ ofStubs knotStubs (filled.name j) = none)) ∧
    (∃ id st, load (ofStubs knotStubs) {} "p.A" { store := .initial } = (.ok id, st)) ∧
    ¬ ∃ id st, load (ofStubs knotStubs) {} "p.C" (loadAll (ofStubs knotStubs) {} ["p.A"]) =
      (.ok id, st) := by
  intro filled
  have hbelow := admissible_knot.staysBelowLimit ["p.A", "p.C"]
  obtain ⟨hclosed, hcalls⟩ := loads_close_over_references admissible_knot.faithful
    admissible_knot.readable admissible_knot.acyclic admissible_knot.lenient hbelow
  obtain ⟨hfirst, _⟩ := hcalls [] "p.A" ["p.C"] rfl
  obtain ⟨hsecond, _⟩ := hcalls ["p.A"] "p.C" [] rfl
  refine ⟨hbelow, by decide +kernel, by decide +kernel, by decide +kernel, hclosed,
    hfirst.mpr (Or.inl (by decide +kernel)), ?_⟩
  intro hloaded
  exact absurd (hsecond.mp hloaded) (by decide +kernel)

end Knot

end JvmTypes.Loader
