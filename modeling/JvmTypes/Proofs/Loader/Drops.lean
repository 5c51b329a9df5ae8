import JvmTypes.Proofs.Loader.Course
/-!
# Dropped signatures

A signature is dropped where its conversion faults. That is told by the course of the load alone:
the declarations that are converted on the way, in which states, and what their signatures come to.
A lenient loader notes these signatures and no others.
-/
namespace JvmTypes.Loader

abbrev Drop := String × SignatureFault

namespace Script

/-- The run of a script comes to a signature whose conversion faults. -/
def GivesUp (resolve : Resolver) (config : Config) (enclosing : Option ClassId) (drop : Drop) :
    {α : Type} → Script α → State → Prop
  | _, .done _, _ => False
  | _, .fail _, _ => False
  | _, .askClass name next, st =>
    ∃ id, (resolve name st).1 = .ok id ∧
      GivesUp resolve config enclosing drop (next id) (resolve name st).2
  | _, .askVariable symbol next, st =>
    GivesUp resolve config enclosing drop (next (seenFrom st.store enclosing symbol)) st
  | _, .attempt owner signature next, st =>
    GivesUp resolve config enclosing drop signature st ∨
      (∃ fault, (signature.run resolve config enclosing st).1 = .error fault ∧
        drop = (owner, fault)) ∨
      ∃ b, (settle config owner (signature.run resolve config enclosing) st).1 = .ok b ∧
        GivesUp resolve config enclosing drop (next b)
          (settle config owner (signature.run resolve config enclosing) st).2

def ClassGivesUp (resolve : Resolver) (config : Config) (id : ClassId) (stub : ClassStub)
    (drop : Drop) (st : State) : Prop :=
  match stub.declaring with
  | none => (classBody id none stub).GivesUp resolve config none drop st
  | some outer =>
    ∃ d, (resolve outer st).1 = .ok d ∧
      (classBody id (some d) stub).GivesUp resolve config
        (if stub.flags.isStatic then none else some d) drop (resolve outer st).2

end Script

/-- The loader takes up the stub that the source has for a name, whatever the state is. -/
structure TakesUp (source : Source) (st : State) (name : String) (stub : ClassStub) : Prop where
  stub : source name = some stub
  untouched : ∀ id, st.store.lookup? name = some id →
    name ∉ st.loaded ∧ name ∉ st.inProgress ∧ (st.store.get id).isPlaceholder = true

/-- A load of a class, with so many levels left below it, comes to a signature whose conversion
faults, of the class itself or of one that is loaded for it. -/
inductive Drops (source : Source) (config : Config) : Nat → String → State → Drop → Prop
  | here {levels name st stub drop} (h : TakesUp source st name stub)
      (hdrop : Script.ClassGivesUp (Regime.mentioned source config levels) config
        (st.store.intern name).1 stub drop (Regime.entered st name)) :
      Drops source config levels name st drop
  | within {levels name st stub st₁ inner drop} (h : TakesUp source st name stub)
      (hcomes : Script.ClassComes (Regime.mentioned source config (levels + 1)) config
        (st.store.intern name).1 stub st₁ (.asks inner) (Regime.entered st name))
      (hinner : Drops source config levels inner st₁ drop) :
      Drops source config (levels + 1) name st drop

/-- The computation notes these signatures as dropped and no others. -/
def Notes (m : Load ε α) (st : State) (D : Drop → Prop) : Prop :=
  ∃ drops, (m st).2.dropped = st.dropped ++ drops ∧ ∀ drop, drop ∈ drops ↔ D drop

section Notes

variable {m : Load ε α} {st : State} {D D' : Drop → Prop}

theorem Notes.of_eq {m' : Load ε α} (heq : m st = m' st) (h : Notes m' st D) : Notes m st D := by
  rwa [Notes, heq]

theorem Notes.congr (h : Notes m st D) (hiff : ∀ drop, D drop ↔ D' drop) : Notes m st D' := by
  obtain ⟨drops, hdropped, hdrops⟩ := h
  exact ⟨drops, hdropped, fun drop => (hdrops drop).trans (hiff drop)⟩

theorem notes_of_quiet (h : (m st).2.dropped = st.dropped) : Notes m st fun _ => False :=
  ⟨[], by rw [h, List.append_nil], by simp⟩

theorem Notes.bind {f : α → Load ε β} {E : α → Drop → Prop} (h : Notes m st D)
    (hf : ∀ a, (m st).1 = .ok a → Notes (f a) (m st).2 (E a)) :
    Notes (m >>= f) st fun drop => D drop ∨ ∃ a, (m st).1 = .ok a ∧ E a drop := by
  obtain ⟨drops, hdropped, hdrops⟩ := h
  cases hm : (m st).1 with
  | error e =>
    refine ⟨drops, by rw [Frame.bind_error hm, hdropped], ?_⟩
    intro drop
    simp [hdrops]
  | ok a =>
    obtain ⟨drops', hdropped', hdrops'⟩ := hf a hm
    refine ⟨drops ++ drops', ?_, ?_⟩
    · rw [Frame.bind_ok hm, hdropped', hdropped, List.append_assoc]
    · intro drop
      simp [hdrops, hdrops']

theorem Notes.bind_quiet {f : α → Load ε β} (h : Notes m st D)
    (hf : ∀ a st', (f a st').2.dropped = st'.dropped) : Notes (m >>= f) st D :=
  (h.bind fun a _ => notes_of_quiet (hf a _)).congr fun drop => by simp

theorem notes_wrapped {m : Load LoadError α} : Notes (wrapped m) st D ↔ Notes m st D := by
  rw [Notes, wrapped_apply]
  exact Iff.rfl

theorem Notes.wrapped_bind {m : Load LoadError α} {f : α → Load SignatureFault β}
    {E : α → Drop → Prop} (h : Notes m st D)
    (hf : ∀ a, (m st).1 = .ok a → Notes (f a) (m st).2 (E a)) :
    Notes (wrapped m >>= f) st fun drop => D drop ∨ ∃ a, (m st).1 = .ok a ∧ E a drop := by
  have hwrapped : ∀ a, (wrapped m st).1 = .ok a ↔ (m st).1 = .ok a := by
    intro a
    rw [wrapped_apply]
    cases (m st).1 <;> simp [Except.mapError]
  have hbind := (notes_wrapped.mpr h).bind fun a ha => by
    rw [wrapped_apply]
    exact hf a ((hwrapped a).mp ha)
  simpa only [hwrapped] using hbind

theorem dropped_orIntern (load : Resolver) (name : String) (st : State) :
    (orIntern load name st).2.dropped = (load name st).2.dropped := by
  rcases hm : load name st with ⟨(_ | _ | _) | id, st'⟩ <;> simp only [orIntern, hm]
  rfl

theorem Notes.orIntern {load : Resolver} {name : String} (h : Notes (load name) st D) :
    Notes (orIntern load name) st D := by
  obtain ⟨drops, hdropped, hdrops⟩ := h
  exact ⟨drops, (dropped_orIntern load name st).trans hdropped, hdrops⟩

theorem Notes.settle {config : Config} (hlenient : config.strict = false) (owner : String)
    {conversion : Load SignatureFault α} (h : Notes conversion st D) :
    Notes (settle config owner conversion) st fun drop =>
      D drop ∨ ∃ fault, (conversion st).1 = .error fault ∧ drop = (owner, fault) := by
  obtain ⟨drops, hdropped, hdrops⟩ := h
  rcases hm : conversion st with ⟨fault | a, st'⟩ <;> rw [hm] at hdropped <;>
    change st'.dropped = st.dropped ++ drops at hdropped
  · refine ⟨drops ++ [(owner, fault)], ?_, ?_⟩
    · simp [Loader.settle, hm, hlenient, hdropped]
    · intro drop
      simp [hdrops]
  · refine ⟨drops, ?_, ?_⟩
    · simpa only [Loader.settle, hm] using hdropped
    · intro drop
      simp [hdrops]

end Notes

section Lenient

variable {config : Config} (hlenient : config.strict = false) {resolve : Resolver}
  {Inner : String → State → Drop → Prop}
  (hresolve : ∀ name st, Notes (resolve name) st (Inner name st))
include hlenient hresolve

/-- A run notes the signatures of the script that are given up, and those that are dropped while
the classes it asks for are resolved. -/
theorem notes_run (enclosing : Option ClassId) (p : Script α) (st : State) :
    Notes (p.run resolve config enclosing) st fun drop =>
      p.GivesUp resolve config enclosing drop st ∨
        ∃ name st₁, p.Comes resolve config enclosing st₁ (.asks name) st ∧ Inner name st₁ drop := by
  induction p generalizing st with
  | done a => exact (notes_of_quiet rfl).congr fun drop => by simp [Script.GivesUp, Script.Comes]
  | fail fault =>
    exact (notes_of_quiet rfl).congr fun drop => by simp [Script.GivesUp, Script.Comes]
  | askClass name next ih =>
    rw [Script.run, ← wrapped_resolve]
    refine ((hresolve name st).wrapped_bind fun id _ => ih id _).congr fun drop => ?_
    simp only [Script.GivesUp, Script.Comes, Event.asks.injEq]
    grind
  | askVariable symbol next ih =>
    have hstore : Notes (getStore : Load SignatureFault Store) st fun _ => False :=
      notes_of_quiet rfl
    refine (hstore.bind fun _ _ => ih _ _).congr fun drop => ?_
    simp [Script.GivesUp, Script.Comes, getStore]
  | attempt owner signature next ihs ihn =>
    have hsettle := (ihs st).settle hlenient owner
    rw [Script.run]
    refine (hsettle.wrapped_bind fun b _ => ihn b _).congr fun drop => ?_
    simp only [Script.GivesUp, Script.Comes]
    grind

theorem notes_classDecl (id : ClassId) (stub : ClassStub) (st : State) :
    Notes (classDecl config resolve id stub) st fun drop =>
      Script.ClassGivesUp resolve config id stub drop st ∨
        ∃ name st₁, Script.ClassComes resolve config id stub st₁ (.asks name) st ∧
          Inner name st₁ drop := by
  refine notes_wrapped.mp ?_
  rw [Script.run_classDecl]
  unfold Script.ClassGivesUp Script.ClassComes
  cases stub.declaring with
  | none =>
    have hbody := notes_run hlenient hresolve none (Script.classBody id none stub) st
    simpa using hbody
  | some outer =>
    have hbody := fun d => notes_run hlenient hresolve
      (if stub.flags.isStatic then none else some d) (Script.classBody id (some d) stub)
    rw [Option.mapM_some, ← wrapped_resolve, map_eq_pure_bind, bind_assoc]
    simp only [pure_bind]
    refine ((hresolve outer st).wrapped_bind fun d _ => hbody d _).congr fun drop => ?_
    simp only [Event.asks.injEq]
    grind

theorem notes_loadStub {source : Source} {name : String} {stub : ClassStub}
    (hstub : source name = some stub) (st : State) :
    Notes (loadWith.loadStub source config resolve name) st fun drop =>
      Script.ClassGivesUp resolve config (st.store.intern name).1 stub drop
          (Regime.entered st name) ∨
        ∃ inner st₁, Script.ClassComes resolve config (st.store.intern name).1 stub st₁
          (.asks inner) (Regime.entered st name) ∧ Inner inner st₁ drop := by
  let interned : State := { st with store := (st.store.intern name).2 }
  have hdecl : Notes (progressing name (classDecl config resolve (st.store.intern name).1 stub))
      interned _ :=
    notes_classDecl hlenient hresolve (st.store.intern name).1 stub (Regime.entered st name)
  rw [loadWith.loadStub, hstub]
  exact hdecl.bind_quiet fun decl st' => rfl

end Lenient

section TakingUp

variable {source : Source} {config : Config} {resolve : Resolver} {name : String} {st : State}

theorem snd_loadWith_of_not_takesUp (h : ∀ stub, ¬ TakesUp source st name stub) :
    (loadWith source config resolve name st).2 = st := by
  by_cases huntouched : ∀ id, st.store.lookup? name = some id →
      name ∉ st.loaded ∧ name ∉ st.inProgress ∧ (st.store.get id).isPlaceholder = true
  · rw [Regime.loadWith_of_undefined huntouched, loadWith.loadStub]
    cases hstub : source name with
    | none => rfl
    | some stub => exact absurd ⟨hstub, huntouched⟩ (h stub)
  · obtain ⟨id, htouched⟩ := not_forall.mp huntouched
    obtain ⟨hid, htouched⟩ := Classical.not_imp.mp htouched
    by_cases hvisited : name ∈ st.loaded ∨ name ∈ st.inProgress
    · rw [Regime.loadWith_of_visited hid hvisited]
    · obtain ⟨hnew, hfresh⟩ := not_or.mp hvisited
      have hdefined : (st.store.get id).isPlaceholder = false := by
        simpa [hnew, hfresh] using htouched
      rw [Regime.loadWith_of_defined hid hdefined]

end TakingUp

def DropsBelow (source : Source) (config : Config) : Nat → String → State → Drop → Prop
  | 0, _, _, _ => False
  | levels + 1, name, st, drop => Drops source config levels name st drop

theorem drops_iff {source : Source} {config : Config} {levels : Nat} {name : String} {st : State}
    {stub : ClassStub} (h : TakesUp source st name stub) (drop : Drop) :
    Drops source config levels name st drop ↔
      Script.ClassGivesUp (Regime.mentioned source config levels) config (st.store.intern name).1
          stub drop (Regime.entered st name) ∨
        ∃ inner st₁, Script.ClassComes (Regime.mentioned source config levels) config
          (st.store.intern name).1 stub st₁ (.asks inner) (Regime.entered st name) ∧
          DropsBelow source config levels inner st₁ drop := by
  constructor
  · rintro (⟨hc, hdrop⟩ | ⟨hc, hcomes, hinner⟩) <;>
      obtain rfl := Option.some.inj (h.stub.symm.trans hc.stub)
    · exact Or.inl hdrop
    · exact Or.inr ⟨_, _, hcomes, hinner⟩
  · rintro (hdrop | ⟨inner, st₁, hcomes, hinner⟩)
    · exact .here h hdrop
    · cases levels with
      | zero => exact hinner.elim
      | succ levels => exact .within h hcomes hinner

section Lenient

variable {source : Source} {config : Config} (hlenient : config.strict = false)
include hlenient

theorem notes_of_mentioned {levels : Nat} (hmentioned : ∀ inner st₁,
      Notes (Regime.mentioned source config levels inner) st₁
        (DropsBelow source config levels inner st₁)) (name : String) (st : State) :
    Notes (loadWithin source config levels name) st (Drops source config levels name st) := by
  rw [Regime.loadWithin_eq]
  by_cases hc : ∃ stub, TakesUp source st name stub
  · obtain ⟨stub, hc⟩ := hc
    have hstub := notes_loadStub hlenient hmentioned hc.stub st
    have heq : loadWith source config (Regime.mentioned source config levels) name st =
        loadWith.loadStub source config (Regime.mentioned source config levels) name st :=
      Regime.loadWith_of_undefined hc.untouched
    exact (Notes.of_eq heq hstub).congr fun drop => (drops_iff hc drop).symm
  · have hnot := not_exists.mp hc
    have hquiet : (loadWith source config (Regime.mentioned source config levels) name st).2 = st :=
      snd_loadWith_of_not_takesUp hnot
    refine (notes_of_quiet (congrArg State.dropped hquiet)).congr fun drop => ⟨False.elim, ?_⟩
    rintro (⟨hc, _⟩ | ⟨hc, _, _⟩)
    · exact hnot _ hc
    · exact hnot _ hc

/-- A lenient load notes the signatures that it comes to and that fault, and no others. -/
theorem notes_loadWithin (levels : Nat) (name : String) (st : State) :
    Notes (loadWithin source config levels name) st (Drops source config levels name st) := by
  induction levels generalizing name st with
  | zero => exact notes_of_mentioned hlenient (fun _ _ => notes_of_quiet rfl) name st
  | succ levels ih =>
    have hmentioned : ∀ inner st₁, Notes (Regime.mentioned source config (levels + 1) inner) st₁
        (DropsBelow source config (levels + 1) inner st₁) :=
      fun inner st₁ => (ih inner st₁).orIntern
    exact notes_of_mentioned hlenient hmentioned name st

end Lenient

end JvmTypes.Loader
