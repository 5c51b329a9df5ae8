import JvmTypes.Proofs.Loader.Circles
import JvmTypes.Proofs.Loader.Enclosing
import JvmTypes.Proofs.Scope.Search
/-!
# Chains of enclosing classes

The classes around a loaded class are those that the source puts around it, so the chain of them
ends exactly if it comes to no circle of the source, and then every search for a type variable ends.
A class that the source puts inside itself is accepted, since it is in progress while its enclosing
class is looked up.
-/
namespace JvmTypes.Loader

/-- The source has `inner`, which is no runtime class, as a member class of `outer`. -/
def MemberOf (source : Source) (inner outer : String) : Prop :=
  Store.initial.lookup? inner = none ∧ EnclosedBy source inner outer

theorem DeclaredFrom.declaring {s : Store} {stub : ClassStub} {id : ClassId}
    (h : DeclaredFrom s stub id) :
    (stub.declaring = none ∧ s.declaring id = none) ∨
      ∃ outer d, stub.declaring = some outer ∧ s.lookup? outer = some d ∧
        s.declaring id = some d := by
  obtain ⟨declaring, hcases, hbody⟩ := Script.ends_classDecl h.ends
  obtain ⟨_, _, _, _, _, _, hdeclaring, _⟩ := Script.ends_classBody hbody
  rcases hcases with ⟨hnone, rfl⟩ | ⟨outer, d, houter, rfl, hlookup⟩
  · exact Or.inl ⟨hnone, hdeclaring⟩
  · exact Or.inr ⟨outer, d, houter, hlookup, hdeclaring⟩

theorem chainEnds_declaring_iff {s : Store} {id : ClassId} :
    ChainEnds s.declaring id ↔ ¬ RunsInCircle s.declaring id :=
  chainEnds_iff_not_runsInCircle fun _ _ h => Store.index_lt_of_declaring h

namespace Sourced

variable {source : Source} {s : Store} (h : Sourced source s) {id : ClassId}
include h

theorem defined_of_declaring {outer : ClassId} (houter : s.declaring id = some outer) :
    (s.get id).isPlaceholder = false := by
  by_contra hp
  rw [Store.declaring, h.sound.bare id (by simpa using hp)] at houter
  cases houter

theorem chainEnds_seed (hid : id.index < Store.initial.size) : ChainEnds s.declaring id := by
  have hseeds : ∀ c ∈ Store.seeds, c.declaring = none ∨ c.declaring = some .methodHandles := by
    decide
  have hhandles : s.declaring .methodHandles = none := by
    rw [Store.declaring, h.get_seed (by decide)]
    rfl
  have hget : s.declaring id = (Store.initial.get id).declaring := by
    rw [Store.declaring, h.get_seed hid]
  rcases hseeds _ (Store.get_initial_mem hid) with hnone | hsome
  · exact .of_none (hget.trans hnone)
  · exact .of_some (hget.trans hsome) (.of_none hhandles)

theorem memberOf_of_declaring {outer : ClassId} (houter : s.declaring id = some outer) :
    ChainEnds s.declaring id ∨ MemberOf source (s.name id) (s.name outer) := by
  rcases h.declaredFrom (h.defined_of_declaring houter) with hseed | ⟨stub, hown, hstub, hdeclared⟩
  · exact Or.inl (h.chainEnds_seed hseed)
  · rcases hdeclared.declaring with ⟨_, hnone⟩ | ⟨n, d, hn, hlookup, hd⟩
    · rw [houter] at hnone
      cases hnone
    · obtain rfl := Option.some.inj (houter.symm.trans hd)
      rw [Store.name_of_lookup? hlookup]
      exact Or.inr ⟨hown, stub, hstub, hn⟩

theorem declaring_of_memberOf {inner outer : String} (hmember : MemberOf source inner outer)
    (hid : s.lookup? inner = some id) (hdefined : (s.get id).isPlaceholder = false) :
    ∃ d, s.lookup? outer = some d ∧ s.declaring id = some d := by
  obtain ⟨hown, stub, hstub, houter⟩ := hmember
  obtain ⟨stub', hstub', hdeclared⟩ := h.declaredFrom_of_lookup? hown hid hdefined
  obtain rfl := Option.some.inj (hstub.symm.trans hstub')
  rcases hdeclared.declaring with ⟨hnone, _⟩ | ⟨n, d, hn, hlookup, hd⟩
  · rw [houter] at hnone
    cases hnone
  · obtain rfl := Option.some.inj (houter.symm.trans hn)
    exact ⟨d, hlookup, hd⟩

theorem chainEnds_of_acyclic (hacyclic : ∀ n, ¬ Relation.TransGen (MemberOf source) n n)
    (id : ClassId) : ChainEnds s.declaring id :=
  chainEnds_of_names (fun _ _ h => Store.index_lt_of_declaring h) hacyclic
    fun _ _ houter => h.memberOf_of_declaring houter

end Sourced

/-- In every state that a load passes through, the chain of classes around a class ends exactly if
it comes to no circle, and a chain that goes on follows the source. If it ends, it ends soon, and so
does every search from the class. All chains end if the source puts no class into itself, however
far out, and so does each search that a load begins. If it does, and its descriptors can be read,
loading leaves a chain that never ends. -/
theorem enclosing_chains_of_load {source : Source} (hsource : Faithful source) :
    (∀ calls, (∀ c ∈ calls, c.ReadsFrom source) → ∀ config name m,
      Passes source config (config.maxDepth - 1) name (after calls) m → ∀ id,
        (ChainEnds m.state.store.declaring id ↔ ¬ RunsInCircle m.state.store.declaring id) ∧
        (∀ outer, m.state.store.declaring id = some outer → ChainEnds m.state.store.declaring id ∨
          MemberOf source (m.state.store.name id) (m.state.store.name outer)) ∧
        (ChainEnds m.state.store.declaring id →
          follow m.state.store.declaring (m.state.store.size + 1) id = none ∧
          ∀ symbol, ∃ r, m.state.store.Sees symbol id r)) ∧
    ((∀ n, ¬ Relation.TransGen (MemberOf source) n n) →
      ∀ calls, (∀ c ∈ calls, c.ReadsFrom source) → ∀ config name m,
        Passes source config (config.maxDepth - 1) name (after calls) m →
        (∀ id, ChainEnds m.state.store.declaring id) ∧
        ∀ outer symbol, m.search = some (outer, symbol) →
          ∃ r, m.state.store.SearchEnds symbol outer r) ∧
    ((∀ name stub, source name = some stub → stub.Readable) →
      ∀ n, Relation.TransGen (MemberOf source) n n →
        ∃ (names : List String) (id : ClassId),
          ¬ ChainEnds (after (names.map (.load source {}))).store.declaring id) := by
  refine ⟨?_, ?_, ?_⟩
  · intro calls hcalls config name m hm id
    refine ⟨chainEnds_declaring_iff,
      fun outer houter => (hm.sourced hsource hcalls).memberOf_of_declaring houter, ?_⟩
    intro hends
    constructor
    · exact follow_none_of_not_runsInCircle (fun _ _ h => Store.index_lt_of_declaring h)
        hends.not_runsInCircle
    · intro symbol
      obtain ⟨r, hr⟩ := Store.SearchEnds.of_chainEnds (Store.chainEnds_enclosing hends) symbol
      exact ⟨r, hr.sees⟩
  · intro hacyclic calls hcalls config name m hm
    have hends := (hm.sourced hsource hcalls).chainEnds_of_acyclic hacyclic
    refine ⟨hends, ?_⟩
    intro outer symbol _
    exact Store.SearchEnds.of_chainEnds (Store.chainEnds_enclosing (hends outer)) symbol
  · intro hreadable n hcircle
    apply exists_endless (R := MemberOf source) _ _ hsource hreadable hcircle
    · rintro inner outer ⟨_, stub, hstub, _⟩
      rw [hstub]
      rfl
    · intro s inner outer id hs hmember hid hdefined
      exact hs.declaring_of_memberOf hmember hid hdefined

def nestedSource : Source :=
  ofStubs [bareStub "p.Outer", { bareStub "p.Outer$Inner" with declaring := some "p.Outer" }]

theorem memberOf_nestedSource {inner outer : String} (h : MemberOf nestedSource inner outer) :
    inner = "p.Outer$Inner" ∧ outer = "p.Outer" := by
  obtain ⟨_, stub, hstub, houter⟩ := h
  obtain ⟨hmem, hname⟩ := mem_of_ofStubs hstub
  rcases List.mem_cons.mp hmem with rfl | hmem
  · cases houter
  · obtain rfl := List.mem_singleton.mp hmem
    exact ⟨hname.symm, (Option.some.inj houter).symm⟩

/-- The member class is linked to the class around it, and there the chain ends. -/
theorem chains_of_nestedSource :
    Faithful nestedSource ∧ (∀ n, ¬ Relation.TransGen (MemberOf nestedSource) n n) ∧
    (after [.load nestedSource {} "p.Outer$Inner"]).store.declaring ⟨14⟩ = some ⟨15⟩ ∧
    ∀ id, ChainEnds (after [.load nestedSource {} "p.Outer$Inner"]).store.declaring id := by
  have hfaithful : Faithful nestedSource := faithful_ofStubs _
  have hacyclic : ∀ n, ¬ Relation.TransGen (MemberOf nestedSource) n n :=
    not_transGen_of_single (fun _ _ h => memberOf_nestedSource h) (by decide)
  have hcalls := Call.readsFrom_loads nestedSource {} ["p.Outer$Inner"]
  obtain ⟨_, hends, _⟩ := enclosing_chains_of_load hfaithful
  exact ⟨hfaithful, hacyclic, by decide +kernel,
    (hends hacyclic _ hcalls {} "p.Outer" _ .begins).1⟩

section Circle

/-- A class inside itself, and a member class of it that mentions a variable which none declares. -/
def circleStubs : List ClassStub :=
  [{ bareStub "p.A" with declaring := some "p.A" },
    { bareStub "p.B" with
      superclass := none, declaring := some "p.A",
      fields := [⟨"f", "Ljava/lang/Object;", some "TT;", .empty, []⟩] }]

def circleState : State := after [.load (ofStubs circleStubs) {} "p.A"]

/-- The chain of a loaded class goes round for ever, a search from the class never ends, and the
load of its member class begins such a search. -/
theorem chain_of_self_enclosed_never_ends :
    Faithful (ofStubs circleStubs) ∧ circleState.store.declaring ⟨14⟩ = some ⟨14⟩ ∧
    ¬ ChainEnds circleState.store.declaring ⟨14⟩ ∧
    ∃ m, Passes (ofStubs circleStubs) {} 63 "p.B" circleState m ∧ m.search = some (⟨14⟩, "T") ∧
      ¬ ∃ r, m.state.store.SearchEnds "T" ⟨14⟩ r := by
  have hlink : circleState.store.declaring ⟨14⟩ = some ⟨14⟩ := by decide +kernel
  have henters : Enters (ofStubs circleStubs) circleState "p.B"
      { bareStub "p.B" with
        superclass := none, declaring := some "p.A",
        fields := [⟨"f", "Ljava/lang/Object;", some "TT;", .empty, []⟩] } :=
    .of_unknown rfl (by decide +kernel) (by decide +kernel) (by decide +kernel)
  -- the class inside itself is defined, so it is not loaded once more
  have hresolved : Regime.mentioned (ofStubs circleStubs) {} 63 "p.A"
      (Regime.entered circleState "p.B") = (.ok ⟨14⟩, Regime.entered circleState "p.B") := by
    have hloaded : loadWithin (ofStubs circleStubs) {} 62 "p.A"
        (Regime.entered circleState "p.B") = (.ok ⟨14⟩, Regime.entered circleState "p.B") := by
      rw [Regime.loadWithin_eq]
      exact Regime.loadWith_of_defined (by decide +kernel) (by decide +kernel)
    rw [Regime.mentioned, orIntern, hloaded]
  have hround : (Regime.entered circleState "p.B").store.enclosing ⟨14⟩ = some ⟨14⟩ := by
    decide +kernel
  have hmissing : ((Regime.entered circleState "p.B").store.findVariable? ⟨14⟩ "T").isSome =
      false := by
    decide +kernel
  refine ⟨faithful_ofStubs _, hlink, fun hends => hends.not_circle (.single hlink), ?_⟩
  refine ⟨_, .comes henters (e := .searches ⟨14⟩ "T")
    (Or.inr ⟨⟨14⟩, ?_, Or.inl (Or.inl ⟨rfl, ⟨14⟩, rfl, rfl⟩)⟩), rfl, ?_⟩
  · rw [hresolved]
  · rw [hresolved, Store.exists_searchEnds_iff, hmissing]
    rintro (hfound | hends)
    · cases hfound
    · exact hends.not_circle (.single hround)

end Circle

end JvmTypes.Loader
