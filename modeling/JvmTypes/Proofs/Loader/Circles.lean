import JvmTypes.Proofs.Chain
import JvmTypes.Proofs.Loader.Definitions
import JvmTypes.Proofs.Loader.Sourced
import JvmTypes.Proofs.Loader.Total
/-!
# Circles of a source

What a source that can be read links to a circle, a lenient loader links so in the store: it defines
every class of the circle, one by one, and a link of a defined class is there to stay.
-/
namespace JvmTypes.Loader

section Unfailing

/-- A lenient loader cannot fail at stubs whose descriptors can be read. -/
def unfailing (source : Source) (config : Config) : Regime source config where
  kept _ _ := True
  wanted _ _ _ := True
  seen enclosing s symbol v := v = none ∨ v = seenFrom s enclosing symbol
  accounts _ _ _ := True
  faulty := False

variable {source : Source} {config : Config} (hlenient : config.strict = false)
  (hreadable : ∀ name stub, source name = some stub → stub.Readable)
include hlenient hreadable

theorem sustained_unfailing : (unfailing source config).Sustained where
  seen_mono := (sustained_steady source config).seen_mono
  wanted_mono _ _ _ _ _ h := h
  strict hstrict := by
    rw [hlenient] at hstrict
    cases hstrict
  enter _ _ _ _ _ _ _ _ _ := trivial
  intern _ _ _ _ _ _ := trivial
  names _ _ _ _ _ _ _ _ _ _ := trivial
  symbols _ _ _ _ _ _ _ _ _ _ := Or.inr rfl
  total name stub id _ _ hstub hend :=
    Script.total_classDecl id (hreadable name stub hstub) _ (fun hfaulty => hfaulty) hend
  leave _ _ _ _ _ _ _ _ _ _ _ := trivial
  abandon _ _ _ _ _ := trivial
  accounting := ⟨fun _ => trivial, fun _ _ _ _ _ _ _ _ => trivial, fun _ _ _ _ => trivial⟩
  accounts_intern _ _ := trivial
  accounts_leave _ _ _ _ _ _ _ _ _ _ _ _ _ _ := trivial

omit hlenient hreadable in
theorem Regime.Holds.unfailing {stack : List String} {st : State}
    (h : (steady source config).Holds stack st) : (unfailing source config).Holds stack st :=
  ⟨h.inProgress, h.nodup, h.sound, h.seeded, h.placeholder, h.loaded, trivial⟩

theorem defined_of_load (hsource : Faithful source) {name : String}
    (hname : (source name).isSome) {st : State} (hst : (steady source config).Holds [] st) :
    ∃ id, (load source config name st).2.store.lookup? name = some id ∧
      ((load source config name st).2.store.get id).isPlaceholder = false := by
  have hload := Regime.loads_load (sustained_unfailing hlenient hreadable) hsource name st
    hst.unfailing trivial
  rcases hm : load source config name st with ⟨e | id, st'⟩
  · obtain ⟨_, _, hfaulty | ⟨hnone, _⟩⟩ := hload.eq_error hm
    · exact hfaulty.elim
    · rw [hnone] at hname
      cases hname
  · obtain ⟨_, _, hid, hdefined, _⟩ := hload.eq_ok hm
    exact ⟨id, hid, by simpa using hdefined⟩

theorem defined_after (hsource : Faithful source) {names : List String} {name : String}
    (hname : (source name).isSome) (hmem : name ∈ names) :
    ∃ id, (after (names.map (.load source config))).store.lookup? name = some id ∧
      ((after (names.map (.load source config))).store.get id).isPlaceholder = false := by
  obtain ⟨front, back, rfl⟩ := List.append_of_mem hmem
  have hcalls := Call.faithful_loads hsource config
  have hfront := steady_after (hcalls front)
  obtain ⟨id, hid, hdefined⟩ :=
    defined_of_load hlenient hreadable hsource hname (hfront source config)
  have hback := extends_performAll (hcalls back)
    (steady_perform (c := .load source config name) (by simpa using hsource) hfront)
  have heq : after ((front ++ name :: back).map (.load source config)) =
      performAll (back.map (.load source config))
        (Call.perform (.load source config name) (after (front.map (.load source config)))) := by
    rw [List.map_append, after_append, List.map_cons]
    rfl
  rw [heq]
  refine ⟨id, hback.grows.lookup? hid, ?_⟩
  rw [hback.grows.get_eq id hdefined]
  exact hdefined

end Unfailing

section Links

variable {source : Source} {R : String → String → Prop}
  {next : Store → ClassId → Option ClassId} (hknown : ∀ a b, R a b → (source a).isSome)
  (hlink : ∀ s a b id, Sourced source s → R a b → s.lookup? a = some id →
    (s.get id).isPlaceholder = false → ∃ d, s.lookup? b = some d ∧ next s id = some d)
include hknown hlink

theorem exists_transGen_linked {a c : String} (h : Relation.TransGen R a c) :
    ∃ names : List String, (∀ n ∈ names, (source n).isSome) ∧
      ∀ s, Sourced source s →
        (∀ n ∈ names, ∃ id, s.lookup? n = some id ∧ (s.get id).isPlaceholder = false) →
        ∃ i j, s.lookup? a = some i ∧ s.lookup? c = some j ∧
          Relation.TransGen (Linked (next s)) i j := by
  induction h with
  | single hr =>
    refine ⟨[a], by simpa using hknown a _ hr, ?_⟩
    intro s hs hdefined
    obtain ⟨i, hi, hdefined⟩ := hdefined a (by simp)
    obtain ⟨j, hj, hnext⟩ := hlink s _ _ i hs hr hi hdefined
    exact ⟨i, j, hi, hj, .single hnext⟩
  | @tail b c _ hr ih =>
    obtain ⟨names, hnames, hway⟩ := ih
    refine ⟨b :: names, ?_, ?_⟩
    · intro n hn
      rcases List.mem_cons.mp hn with rfl | hn
      · exact hknown _ _ hr
      · exact hnames n hn
    · intro s hs hdefined
      obtain ⟨i, j, hi, hj, hpath⟩ := hway s hs fun n hn => hdefined n (by simp [hn])
      obtain ⟨j', hj', hmiddle⟩ := hdefined b (by simp)
      obtain rfl := Option.some.inj (hj.symm.trans hj')
      obtain ⟨k, hk, hnext⟩ := hlink s _ _ j hs hr hj hmiddle
      exact ⟨i, k, hi, hk, hpath.tail hnext⟩

/-- A circle of the source leads to a chain of the store that never ends. -/
theorem exists_endless (hsource : Faithful source)
    (hreadable : ∀ name stub, source name = some stub → stub.Readable) {n : String}
    (h : Relation.TransGen R n n) :
    ∃ (names : List String) (id : ClassId),
      ¬ ChainEnds (next (after (names.map (.load source {}))).store) id := by
  obtain ⟨names, hnames, hway⟩ := exists_transGen_linked hknown hlink h
  have hcalls := Call.readsFrom_loads source {} names
  have hdefined : ∀ name ∈ names, ∃ id,
      (after (names.map (.load source {}))).store.lookup? name = some id ∧
      ((after (names.map (.load source {}))).store.get id).isPlaceholder = false :=
    fun name hname => defined_after rfl hreadable hsource (hnames name hname) hname
  obtain ⟨i, j, hi, hj, hback⟩ := hway _ (sourced_after hsource hcalls) hdefined
  obtain rfl := Option.some.inj (hi.symm.trans hj)
  exact ⟨names, i, fun hends => hends.not_circle hback⟩

end Links

end JvmTypes.Loader
