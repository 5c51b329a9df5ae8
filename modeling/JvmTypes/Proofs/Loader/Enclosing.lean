import JvmTypes.Proofs.Loader.Reachable
import JvmTypes.Proofs.Loader.Total
import Mathlib.Order.WellFoundedSet
/-!
# Sources that are fit to be loaded in full

The links from member classes to the classes around them go round in no circle, every descriptor can
be read, and the depth allowed reaches all classes that the source knows.
-/
namespace JvmTypes.Loader

/-- The source has `inner` as a member class of `outer`. -/
def EnclosedBy (source : Source) (inner outer : String) : Prop :=
  ∃ stub, source inner = some stub ∧ stub.declaring = some outer

structure Admissible (source : Source) (config : Config) : Prop where
  lenient : config.strict = false
  faithful : Faithful source
  readable : ∀ name stub, source name = some stub → stub.Readable
  acyclic : ∀ name, ¬ Relation.TransGen (EnclosedBy source) name name
  bounded : ∃ names : List String, (∀ name stub, source name = some stub → name ∈ names) ∧
    names.length < config.maxDepth

namespace Admissible

variable {source : Source} {config : Config} (h : Admissible source config)
include h

theorem wellFounded : WellFounded fun outer inner => EnclosedBy source inner outer := by
  obtain ⟨names, hnames, _⟩ := h.bounded
  let above : String → String → Prop :=
    fun outer inner => Relation.TransGen (EnclosedBy source) inner outer
  have hstrict : IsStrictOrder String above :=
    { irrefl := h.acyclic, trans := fun _ _ _ hab hbc => hbc.trans hab }
  have hfinite : {n | n ∈ names}.WellFoundedOn above :=
    Set.Finite.wellFoundedOn (List.finite_toSet names)
  have hknown := Set.wellFoundedOn_iff.mp hfinite
  refine ⟨fun name => hknown.induction name fun name ih => ?_⟩
  refine Acc.intro name fun outer houter => ?_
  obtain ⟨stub, hstub, hd⟩ := houter
  by_cases houter : outer ∈ names
  · exact ih outer ⟨.single ⟨stub, hstub, hd⟩, houter, hnames name stub hstub⟩
  · refine Acc.intro outer fun further hfurther => ?_
    obtain ⟨stub', hstub', _⟩ := hfurther
    exact absurd (hnames outer stub' hstub') houter

/-- Classes in progress are known, so they do not use up the depth. -/
theorem length_lt {stack : List String} (hnodup : stack.Nodup)
    (hstack : ∀ n ∈ stack, (source n).isSome) :
    stack.length < config.maxDepth := by
  obtain ⟨names, hnames, hlength⟩ := h.bounded
  have hsub : stack ⊆ names := by
    intro n hn
    obtain ⟨stub, hstub⟩ := Option.isSome_iff_exists.mp (hstack n hn)
    exact hnames n stub hstub
  exact (hnodup.subperm hsub).length_le.trans_lt hlength

end Admissible

end JvmTypes.Loader
