import JvmTypes.Proofs.Loader.Calls
import JvmTypes.Proofs.Loader.Provenance
/-!
# Stores filled from one source

Where all loaders read from one source, every class but the runtime classes is declared as the stub
of its own name says, also in the middle of a load.
-/
namespace JvmTypes.Loader

def Call.ReadsFrom (source : Source) (c : Call) : Prop :=
  ∀ source' config, c.loader? = some (source', config) → source' = source

theorem Call.readsFrom_load (source : Source) (config : Config) (name : String) :
    (Call.load source config name).ReadsFrom source := by
  intro source' config' hloader
  exact (Prod.mk.inj (Option.some.inj hloader)).1.symm

theorem Call.readsFrom_loads (source : Source) (config : Config) (names : List String) :
    ∀ c ∈ names.map (Call.load source config), c.ReadsFrom source := by
  intro c hc
  obtain ⟨name, _, rfl⟩ := List.mem_map.mp hc
  exact readsFrom_load source config name

def Offers (source : Source) (stub : ClassStub) : Prop := source stub.name = some stub

structure Sourced (source : Source) (s : Store) : Prop where
  sound : s.Sound
  seeded : Store.initial.Grows s
  provided : Provided (Offers source) s

section Calls

variable {source : Source} (hsource : Faithful source)
include hsource

theorem sustained_offers (config : Config) :
    (keeping (Provided (Offers source)) source config).Sustained := by
  apply sustained_provided
  intro name stub hstub
  rw [Offers, hsource name stub hstub]
  exact hstub

theorem holds_offers {calls : List Call} (hcalls : ∀ c ∈ calls, c.ReadsFrom source)
    (config : Config) :
    (keeping (Provided (Offers source)) source config).Holds [] (after calls) := by
  apply holds_after
  · exact fun _ hs hprovided name => hprovided.intern hs name
  · exact provided_initial _
  · intro c hc source' config' hloader
    obtain rfl := hcalls c hc source' config' hloader
    exact ⟨hsource, sustained_offers hsource config'⟩

/-- In every state that a load passes through the store is filled from the source. -/
theorem Passes.sourced {calls : List Call} (hcalls : ∀ c ∈ calls, c.ReadsFrom source)
    {config : Config} {name : String} {m : Moment}
    (hm : Passes source config (config.maxDepth - 1) name (after calls) m) :
    Sourced source m.state.store := by
  obtain ⟨inner, hholds, _⟩ :=
    hm.holds (sustained_offers hsource config) hsource (holds_offers hsource hcalls config)
      (Regime.depth_nil config)
  exact ⟨hholds.sound, hholds.seeded, hholds.kept⟩

theorem sourced_after {calls : List Call} (hcalls : ∀ c ∈ calls, c.ReadsFrom source) :
    Sourced source (after calls).store := by
  have hholds := holds_offers hsource hcalls {}
  exact ⟨hholds.sound, hholds.seeded, hholds.kept⟩

end Calls

namespace Sourced

variable {source : Source} {s : Store} (h : Sourced source s) {id : ClassId}
include h

theorem get_seed (hid : id.index < Store.initial.size) : s.get id = Store.initial.get id :=
  h.seeded.get_eq id (Store.defined_initial hid)

/-- A class that is defined and no runtime class is declared from the stub of its name, and the
runtime has no class of that name. -/
theorem declaredFrom (hdefined : (s.get id).isPlaceholder = false) :
    id.index < Store.initial.size ∨
      ∃ stub, Store.initial.lookup? (s.name id) = none ∧ source (s.name id) = some stub ∧
        DeclaredFrom s stub id := by
  by_cases hid : id.index < Store.initial.size
  · exact Or.inl hid
  · rcases h.provided id hdefined with hseed | ⟨stub, hstub, hdeclared⟩
    · exact Or.inl (Store.index_lt_of_defined hseed)
    · refine Or.inr ⟨stub, ?_, ?_, hdeclared⟩
      · cases hown : Store.initial.lookup? (s.name id) with
        | none => rfl
        | some i =>
          have hi := h.seeded.lookup? hown
          rw [h.sound.lookup?_name (Store.index_lt_of_defined hdefined)] at hi
          obtain rfl := Option.some.inj hi
          exact absurd (Store.index_lt_of_lookup? hown) hid
      · rw [← hdeclared.name]
        exact hstub

theorem declaredFrom_of_lookup? {name : String} (hown : Store.initial.lookup? name = none)
    (hid : s.lookup? name = some id) (hdefined : (s.get id).isPlaceholder = false) :
    ∃ stub, source name = some stub ∧ DeclaredFrom s stub id := by
  have hname := Store.name_of_lookup? hid
  rcases h.declaredFrom hdefined with hseed | ⟨stub, _, hstub, hdeclared⟩
  · have hknown := Store.sound_initial.lookup?_name hseed
    rw [← h.seeded.name_eq id hseed, hname, hown] at hknown
    cases hknown
  · rw [hname] at hstub
    exact ⟨stub, hstub, hdeclared⟩

end Sourced

end JvmTypes.Loader
