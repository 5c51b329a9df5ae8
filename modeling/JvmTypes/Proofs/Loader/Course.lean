import JvmTypes.Proofs.Loader.Reachable
/-!
# The course of a load

A load passes through states: it begins, enters the conversion of a stub, asks for the classes that
the declaration mentions, which may be loaded in turn, looks for type variables in the classes
around, and ends. What loading keeps holds in every one of these states, and in none of them are
more classes in progress than the depth allows.
-/
namespace JvmTypes.Loader

/-- What the conversion of a stub does next: it needs a class, or it begins a search for a type
variable at a class around. -/
inductive Event where
  | asks (name : String)
  | searches (outer : ClassId) (symbol : String)

def Event.search : Event → Option (ClassId × String)
  | .asks _ => none
  | .searches outer symbol => some (outer, symbol)

/-- A state that a load passes through, and the search for a type variable that begins there. -/
structure Moment where
  state : State
  search : Option (ClassId × String) := none

namespace Script

/-- The run of a script comes to an event in the state `st'`. -/
def Comes (resolve : Resolver) (config : Config) (enclosing : Option ClassId) (st' : State)
    (e : Event) : {α : Type} → Script α → State → Prop
  | _, .done _, _ => False
  | _, .fail _, _ => False
  | _, .askClass name next, st =>
    (st' = st ∧ e = .asks name) ∨
      ∃ id, (resolve name st).1 = .ok id ∧
        Comes resolve config enclosing st' e (next id) (resolve name st).2
  | _, .askVariable symbol next, st =>
    (st' = st ∧ ∃ outer, enclosing = some outer ∧ e = .searches outer symbol) ∨
      Comes resolve config enclosing st' e (next (seenFrom st.store enclosing symbol)) st
  | _, .attempt owner signature next, st =>
    Comes resolve config enclosing st' e signature st ∨
      ∃ b, (settle config owner (signature.run resolve config enclosing) st).1 = .ok b ∧
        Comes resolve config enclosing st' e (next b)
          (settle config owner (signature.run resolve config enclosing) st).2

/-- The conversion of a stub comes to an event: it needs the enclosing class first. -/
def ClassComes (resolve : Resolver) (config : Config) (id : ClassId) (stub : ClassStub)
    (st' : State) (e : Event) (st : State) : Prop :=
  match stub.declaring with
  | none => (classBody id none stub).Comes resolve config none st' e st
  | some outer =>
    (st' = st ∧ e = .asks outer) ∨
      ∃ d, (resolve outer st).1 = .ok d ∧
        (classBody id (some d) stub).Comes resolve config
          (if stub.flags.isStatic then none else some d) st' e (resolve outer st).2

end Script

namespace Frame

section Steps

variable {F : Frame} {resolve : Resolver} {config : Config} {st : State}

def Encloses (F : Frame) (resolve : Resolver) : Prop :=
  ∀ name st, F.inv st → F.inv (resolve name st).2 ∧ F.le st (resolve name st).2

theorem Runs.of_steps {m : Load ε α} (h : F.inv (m st).2 ∧ F.le st (m st).2) :
    F.Runs m st (fun _ _ => True) fun _ _ => True :=
  ⟨h.1, h.2, fun _ _ => trivial, fun _ _ => trivial⟩

variable (hresolve : F.Encloses resolve)
include hresolve

theorem steps_script (enclosing : Option ClassId) (p : Script α) (hst : F.inv st) :
    F.inv (p.run resolve config enclosing st).2 ∧
      F.le st (p.run resolve config enclosing st).2 := by
  have hacc : ∀ _ : State, Accounting Answers.any.faulty fun _ _ _ => True := fun _ =>
    ⟨fun _ => trivial, fun _ _ _ _ _ _ _ _ => trivial, fun _ _ _ _ => trivial⟩
  have hserves : F.Serves (fun _ => .any) (fun _ _ => True) enclosing p st :=
    ⟨fun _ _ _ _ _ _ => ⟨fun _ _ h => h, fun _ _ h => h, fun h => h⟩, fun _ _ _ _ _ => trivial,
      fun _ _ _ _ _ => trivial⟩
  have hresolves : ∀ name st, F.inv st → True → F.Runs (resolve name) st
      (fun id _ => Answers.any.cls name id ∧ True) fun _ _ => Answers.any.faulty :=
    fun name st hst _ => (Runs.of_steps (hresolve name st hst)).imp
      (fun _ _ _ _ _ => ⟨trivial, trivial⟩) fun _ _ _ _ _ => trivial
  have hstrict : config.strict = true → ∀ _ : State, Answers.any.faulty := fun _ _ => trivial
  have hrun := runs_script hacc hresolves hstrict p hst hserves
  exact ⟨hrun.inv, hrun.le⟩

theorem steps_settle (owner : String) (enclosing : Option ClassId) (p : Script α)
    (hst : F.inv st) :
    F.inv (settle config owner (p.run resolve config enclosing) st).2 ∧
      F.le st (settle config owner (p.run resolve config enclosing) st).2 := by
  have hrun : F.Runs (settle config owner (p.run resolve config enclosing)) st
      (fun _ _ => True) fun _ _ => True :=
    runs_settle (.of_steps (steps_script hresolve enclosing p hst)) (fun _ _ _ _ _ => trivial)
      (fun _ _ _ _ _ _ => trivial) fun _ _ _ _ _ _ => trivial
  exact ⟨hrun.inv, hrun.le⟩

theorem steps_classDecl (config : Config) (id : ClassId) (stub : ClassStub) (hst : F.inv st) :
    F.inv (classDecl config resolve id stub st).2 ∧
      F.le st (classDecl config resolve id stub st).2 := by
  have hdeclaring : F.Runs (stub.declaring.mapM (referenced resolve)) st (fun _ _ => True)
      fun _ _ => True := by
    cases stub.declaring with
    | none => exact runs_pure hst trivial
    | some outer =>
      rw [Option.mapM_some, map_eq_pure_bind, ← wrapped_resolve]
      refine (runs_wrapped (.of_steps (hresolve outer st hst))).bind ?_
      intro d st₁ hst₁ _ _
      exact runs_pure hst₁ trivial
  have hrun : F.Runs (classDecl config resolve id stub) st (fun _ _ => True) fun _ _ => True := by
    apply runs_of_wrapped
    rw [Script.run_classDecl]
    apply hdeclaring.bind
    intro declaring st₁ hst₁ _ _
    exact .of_steps (steps_script hresolve _ _ hst₁)
  exact ⟨hrun.inv, hrun.le⟩

variable {st' : State} {e : Event}

theorem inv_of_comes {enclosing : Option ClassId} {p : Script α} (hst : F.inv st)
    (h : p.Comes resolve config enclosing st' e st) : F.inv st' := by
  induction p generalizing st with
  | done a => exact h.elim
  | fail fault => exact h.elim
  | askClass name next ih =>
    rcases h with ⟨rfl, _⟩ | ⟨id, _, h⟩
    · exact hst
    · exact ih id (hresolve name st hst).1 h
  | askVariable symbol next ih =>
    rcases h with ⟨rfl, _⟩ | h
    · exact hst
    · exact ih _ hst h
  | attempt owner signature next ihs ihn =>
    rcases h with h | ⟨b, _, h⟩
    · exact ihs hst h
    · exact ihn b (steps_settle hresolve owner enclosing signature hst).1 h

theorem inv_of_classComes {id : ClassId} {stub : ClassStub} (hst : F.inv st)
    (h : Script.ClassComes resolve config id stub st' e st) : F.inv st' := by
  unfold Script.ClassComes at h
  split at h
  · exact inv_of_comes hresolve hst h
  · rename_i outer _
    rcases h with ⟨rfl, _⟩ | ⟨d, _, h⟩
    · exact hst
    · exact inv_of_comes hresolve (hresolve outer st hst).1 h

end Steps

end Frame

/-- The loader begins to convert the stub that the source has for a name. -/
structure Enters (source : Source) (st : State) (name : String) (stub : ClassStub) : Prop where
  stub : source name = some stub
  new : name ∉ st.loaded
  fresh : name ∉ st.inProgress
  undefined : ∀ id, st.store.lookup? name = some id → (st.store.get id).isPlaceholder = true

theorem Enters.of_unknown {source : Source} {st : State} {name : String} {stub : ClassStub}
    (hstub : source name = some stub) (hnew : name ∉ st.loaded) (hfresh : name ∉ st.inProgress)
    (h : st.store.lookup? name = none) : Enters source st name stub := by
  refine ⟨hstub, hnew, hfresh, ?_⟩
  intro id hid
  rw [h] at hid
  cases hid

/-- A load of a class, with so many levels left below it, passes through a moment. -/
inductive Passes (source : Source) (config : Config) : Nat → String → State → Moment → Prop
  | begins {levels name st} : Passes source config levels name st ⟨st, none⟩
  | enters {levels name st stub} (h : Enters source st name stub) :
      Passes source config levels name st ⟨Regime.entered st name, none⟩
  | comes {levels name st stub st' e} (h : Enters source st name stub)
      (hcomes : Script.ClassComes (Regime.mentioned source config levels) config
        (st.store.intern name).1 stub st' e (Regime.entered st name)) :
      Passes source config levels name st ⟨st', e.search⟩
  | within {levels name st stub st' n m} (h : Enters source st name stub)
      (hcomes : Script.ClassComes (Regime.mentioned source config (levels + 1)) config
        (st.store.intern name).1 stub st' (.asks n) (Regime.entered st name))
      (hm : Passes source config levels n st' m) : Passes source config (levels + 1) name st m
  | ends {levels name st} :
      Passes source config levels name st ⟨(loadWithin source config levels name st).2, none⟩

theorem loadWith_cases {source : Source} {config : Config} {R : Regime source config}
    {stack : List String} {st : State} (hst : R.Holds stack st) (resolve : Resolver)
    (name : String) :
    (∃ id, st.store.lookup? name = some id ∧
      loadWith source config resolve name st = (.ok id, st)) ∨
    (source name = none ∧
      (∀ id, st.store.lookup? name = some id → (st.store.get id).isPlaceholder = true) ∧
      loadWith source config resolve name st = (.error (.notFound name), st)) ∨
    ∃ stub, Enters source st name stub ∧
      loadWith source config resolve name st =
        loadWith.loadStub source config resolve name st := by
  by_cases hvisited : name ∈ st.loaded ∨ name ∈ st.inProgress
  · have hknown : ∃ id, st.store.lookup? name = some id := by
      rcases hvisited with hloaded | hprogress
      · obtain ⟨id, hid, _⟩ := hst.loaded name hloaded
        exact ⟨id, hid⟩
      · rw [hst.inProgress] at hprogress
        obtain ⟨id, hid, _⟩ := hst.placeholder name hprogress
        exact ⟨id, hid⟩
    obtain ⟨id, hid⟩ := hknown
    exact Or.inl ⟨id, hid, Regime.loadWith_of_visited hid hvisited⟩
  · obtain ⟨hnew, hfresh⟩ := not_or.mp hvisited
    by_cases hdefined : ∃ id, st.store.lookup? name = some id ∧
        (st.store.get id).isPlaceholder = false
    · obtain ⟨id, hid, hdefined⟩ := hdefined
      exact Or.inl ⟨id, hid, Regime.loadWith_of_defined hid hdefined⟩
    · have hundefined : ∀ id, st.store.lookup? name = some id →
          (st.store.get id).isPlaceholder = true := by
        intro id hid
        by_contra hp
        exact hdefined ⟨id, hid, by simpa using hp⟩
      have heq : loadWith source config resolve name st =
          loadWith.loadStub source config resolve name st :=
        Regime.loadWith_of_undefined fun id hid => ⟨hnew, hfresh, hundefined id hid⟩
      cases hstub : source name with
      | none =>
        refine Or.inr (Or.inl ⟨rfl, hundefined, ?_⟩)
        rw [heq, loadWith.loadStub, hstub]
        rfl
      | some stub => exact Or.inr (Or.inr ⟨stub, ⟨hstub, hnew, hfresh, hundefined⟩, heq⟩)

/-- The levels that are left stand for the classes that may still come to be in progress: a
mentioned class is left alone where as many are in progress as the configuration allows. -/
theorem mentioned_eq {source : Source} {config : Config} {levels : Nat} {st : State}
    (h : levels = config.maxDepth - st.inProgress.length) (name : String) :
    Regime.mentioned source config levels name st =
      if config.maxDepth ≤ st.inProgress.length then intern name st
      else orIntern (loadWithin source config (levels - 1)) name st := by
  cases levels with
  | zero =>
    rw [if_pos (by omega)]
    rfl
  | succ levels =>
    rw [if_neg (by omega)]
    rfl

section Kept

variable {kept : Store → Prop} {source : Source} {config : Config}
  (hkept : (keeping kept source config).Sustained)
include hkept

theorem Enters.holds {stack : List String} {st : State} {name : String} {stub : ClassStub}
    (h : Enters source st name stub) (hst : (keeping kept source config).Holds stack st) :
    (keeping kept source config).Holds (name :: stack) (Regime.entered st name) := by
  apply hst.enter hkept trivial h.stub
  · rw [← hst.inProgress]
    exact h.fresh
  · exact h.undefined

variable (hsource : Faithful source)
include hsource

theorem encloses_mentioned {levels : Nat} {stack : List String}
    (hdepth : config.maxDepth ≤ stack.length + levels) :
    ((keeping kept source config).frame stack).Encloses
      (Regime.mentioned source config levels) := by
  intro name st hst
  have hrun := Regime.resolves_mentioned hkept hsource hdepth name st hst trivial
  exact ⟨hrun.inv, hrun.le⟩

theorem Enters.holds_of_comes {levels : Nat} {stack : List String} {st st' : State} {name : String}
    {stub : ClassStub} {e : Event} (h : Enters source st name stub)
    (hst : (keeping kept source config).Holds stack st)
    (hdepth : config.maxDepth ≤ stack.length + levels + 1)
    (hcomes : Script.ClassComes (Regime.mentioned source config levels) config
      (st.store.intern name).1 stub st' e (Regime.entered st name)) :
    (keeping kept source config).Holds (name :: stack) st' :=
  Frame.inv_of_classComes
    (encloses_mentioned hkept hsource (Regime.depth_cons name levels hdepth)) (h.holds hkept hst)
    hcomes

/-- In every state on the way some classes more are in progress, as many as there were levels
left at most, and what loading keeps holds. -/
theorem Passes.holds {levels : Nat} {name : String} {st : State} {m : Moment}
    (h : Passes source config levels name st m) {stack : List String}
    (hst : (keeping kept source config).Holds stack st)
    (hdepth : config.maxDepth ≤ stack.length + levels + 1) :
    ∃ inner, (keeping kept source config).Holds (inner ++ stack) m.state ∧
      inner.length ≤ levels + 1 := by
  induction h generalizing stack with
  | begins => exact ⟨[], hst, by simp⟩
  | @enters levels name st stub h =>
    refine ⟨[name], h.holds hkept hst, ?_⟩
    rw [List.length_singleton]
    omega
  | @comes levels name st stub st' e h hcomes =>
    refine ⟨[name], h.holds_of_comes hkept hsource hst hdepth hcomes, ?_⟩
    rw [List.length_singleton]
    omega
  | @within levels name st stub st' n m h hcomes _ ih =>
    have hasked := h.holds_of_comes hkept hsource hst hdepth hcomes
    obtain ⟨inner, hholds, hlength⟩ := ih hasked (Regime.depth_cons name (levels + 1) hdepth)
    refine ⟨inner ++ [name], ?_, ?_⟩
    · rw [List.append_assoc]
      exact hholds
    · rw [List.length_append, List.length_singleton]
      omega
  | @ends levels name st =>
    have hload := Regime.loads_loadWithin hkept hsource levels hdepth name st hst trivial
    exact ⟨[], hload.inv, by simp⟩

end Kept

end JvmTypes.Loader
