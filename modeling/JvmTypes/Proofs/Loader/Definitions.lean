import JvmTypes.Proofs.Loader.Calls
/-!
# How definitions come into a store

A store grows with every call. What a call defines was a placeholder before, and its definition is
what the conversion of the stub of its own name ended with.
-/
namespace JvmTypes.Loader

/-- On the way from one store to another the stub that the source has for the name of `decl` is
converted into `decl`. -/
def Made (source : Source) (config : Config) (id : ClassId) (decl : ClassDecl) (s t : Store) :
    Prop :=
  ∃ stub levels st₁ st₂, source decl.name = some stub ∧
    classDecl config (Regime.mentioned source config levels) id stub st₁ = (.ok decl, st₂) ∧
    s.Grows st₁.store ∧ st₁.store.Grows st₂.store ∧ st₂.store.Grows t

theorem Made.wider {source : Source} {config : Config} {id : ClassId} {decl : ClassDecl}
    {s s' t t' : Store} (h : Made source config id decl s t) (hs : s'.Grows s) (ht : t.Grows t') :
    Made source config id decl s' t' := by
  obtain ⟨stub, levels, st₁, st₂, hstub, hdecl, h₁, h₁₂, h₂⟩ := h
  exact ⟨stub, levels, st₁, st₂, hstub, hdecl, hs.trans h₁, h₁₂, h₂.trans ht⟩

/-- The store grows, and each new definition is made by one of some loaders. -/
structure Extends (loaders : Source × Config → Prop) (s t : Store) : Prop where
  grows : s.Grows t
  made : ∀ id, (s.get id).isPlaceholder = true → (t.get id).isPlaceholder = false →
    ∃ source config, loaders (source, config) ∧ Made source config id (t.get id) s t

namespace Extends

variable {loaders : Source × Config → Prop} {s t u : Store}

theorem refl (s : Store) : Extends loaders s s := by
  constructor
  · exact .refl s
  · intro id hp hdefined
    rw [hp] at hdefined
    cases hdefined

theorem trans (h : Extends loaders s t) (k : Extends loaders t u) : Extends loaders s u := by
  constructor
  · exact h.grows.trans k.grows
  · intro id hp hdefined
    cases ht : (t.get id).isPlaceholder with
    | false =>
      obtain ⟨source, config, hloader, hmade⟩ := h.made id hp ht
      rw [k.grows.get_eq id ht]
      exact ⟨source, config, hloader, hmade.wider (.refl s) k.grows⟩
    | true =>
      obtain ⟨source, config, hloader, hmade⟩ := k.made id ht hdefined
      exact ⟨source, config, hloader, hmade.wider h.grows (.refl u)⟩

theorem imp {loaders' : Source × Config → Prop} (h : Extends loaders s t)
    (hloaders : ∀ p, loaders p → loaders' p) : Extends loaders' s t := by
  constructor
  · exact h.grows
  · intro id hp hdefined
    obtain ⟨source, config, hloader, hmade⟩ := h.made id hp hdefined
    exact ⟨source, config, hloaders _ hloader, hmade⟩

theorem intern (s : Store) (name : String) : Extends loaders s (s.intern name).2 := by
  constructor
  · exact Store.grows_intern s name
  · intro id hp hdefined
    have hget := Store.get_intern_of_defined hdefined
    rw [hget, hp] at hdefined
    cases hdefined

theorem define {source : Source} {config : Config} (hloader : loaders (source, config))
    {name : String} {stub : ClassStub} (hstub : source name = some stub) {levels : Nat}
    {id : ClassId} {decl : ClassDecl} {st₁ st₂ : State}
    (hdecl : classDecl config (Regime.mentioned source config levels) id stub st₁ =
      (.ok decl, st₂))
    (hname : decl.name = name) (hstart : Extends loaders s st₁.store)
    (hconverted : Extends loaders st₁.store st₂.store)
    (hid : st₂.store.lookup? name = some id) (hp : (st₂.store.get id).isPlaceholder = true) :
    Extends loaders s (st₂.store.define id decl) := by
  have hnameid : decl.name = st₂.store.name id := by rw [hname, Store.name_of_lookup? hid]
  have hgrows := Store.grows_define hp hnameid
  have hextends := hstart.trans hconverted
  constructor
  · exact hextends.grows.trans hgrows
  · intro other hother hdefined
    by_cases ho : other = id
    · subst ho
      rw [Store.get_define_self (Store.index_lt_of_lookup? hid)]
      refine ⟨source, config, hloader, stub, levels, st₁, st₂, ?_, hdecl, hstart.grows,
        hconverted.grows, hgrows⟩
      rw [hname]
      exact hstub
    · rw [Store.get_define_ne ho] at hdefined ⊢
      obtain ⟨source', config', hloader', hmade⟩ := hextends.made other hother hdefined
      exact ⟨source', config', hloader', hmade.wider (.refl s) hgrows⟩

end Extends

theorem name_of_classDecl {config : Config} {resolve : Resolver} {id : ClassId} {stub : ClassStub}
    {st : State} {decl : ClassDecl} (h : (classDecl config resolve id stub st).1 = .ok decl) :
    decl.name = stub.name := by
  have hwrapped : (wrapped (classDecl config resolve id stub) st).1 = .ok decl := by
    rcases hm : classDecl config resolve id stub st with ⟨e | d, st'⟩
    · rw [hm] at h
      cases h
    · rw [hm] at h
      simp only [wrapped, hm]
      exact congrArg Except.ok (Except.ok.inj h)
  rw [Script.run_classDecl] at hwrapped
  cases hd : (stub.declaring.mapM (referenced resolve) st).1 with
  | error e =>
    rw [Frame.bind_error hd] at hwrapped
    cases hwrapped
  | ok declaring =>
    rw [Frame.bind_ok hd] at hwrapped
    obtain ⟨_, _, _, _, hname, _⟩ := Script.ends_classBody (Script.ends_of_run hwrapped)
    exact hname

section Loads

variable (loaders : Source × Config → Prop) {source : Source} {config : Config}
  (hloader : loaders (source, config)) (hsource : Faithful source)

def extension (source : Source) (config : Config) (stack : List String) : Frame where
  inv := (steady source config).Holds stack
  le st st' := Extends loaders st.store st'.store
  refl st := .refl st.store
  trans h k := h.trans k
  sound h := h.sound
  grows h := h.grows
  drop dropped h := ⟨(((steady source config).frame stack).drop dropped h).1, .refl _⟩

variable {loaders}
include hloader hsource

theorem extends_loadWith {levels : Nat} {stack : List String} {name : String} {st : State}
    (hresolve : (extension loaders source config (name :: stack)).Encloses
      (Regime.mentioned source config levels))
    (hst : (steady source config).Holds stack st) :
    Extends loaders st.store
      (loadWith source config (Regime.mentioned source config levels) name st).2.store := by
  rcases loadWith_cases hst (Regime.mentioned source config levels) name with
    ⟨_, _, heq⟩ | ⟨_, _, heq⟩ | ⟨stub, henters, heq⟩
  · rw [heq]
    exact .refl _
  · rw [heq]
    exact .refl _
  · rw [heq, Regime.loadStub_eq st henters.stub]
    have hentered := henters.holds (sustained_steady source config) hst
    have hstart : Extends loaders st.store (Regime.entered st name).store := .intern st.store name
    have hsteps :=
      Frame.steps_classDecl hresolve config (st.store.intern name).1 stub hentered
    rcases hm : classDecl config (Regime.mentioned source config levels)
      (st.store.intern name).1 stub (Regime.entered st name) with ⟨e | decl, st'⟩
    · rw [hm] at hsteps
      exact hstart.trans hsteps.2
    · rw [hm] at hsteps
      obtain ⟨hinv, hconverted⟩ := hsteps
      have hname : decl.name = stub.name := name_of_classDecl (by rw [hm])
      have hid : st'.store.lookup? name = some (st.store.intern name).1 :=
        Store.Grows.lookup? hconverted.grows (Store.lookup?_intern st.store name)
      exact .define hloader henters.stub hm (hname.trans (hsource name stub henters.stub)) hstart
        hconverted hid (hinv.isPlaceholder hid)

omit hloader hsource in
theorem extends_orIntern {load : Resolver} {name : String} {st : State}
    (h : Extends loaders st.store (load name st).2.store) :
    Extends loaders st.store (orIntern load name st).2.store := by
  rcases hm : load name st with ⟨e | id, st'⟩
  · rw [hm] at h
    cases e with
    | notFound n =>
      simp only [orIntern, hm]
      exact h.trans (.intern st'.store name)
    | malformedSignature _ _ =>
      simp only [orIntern, hm]
      exact h
    | malformedDescriptor _ _ =>
      simp only [orIntern, hm]
      exact h
  · rw [hm] at h
    simp only [orIntern, hm]
    exact h

theorem extends_loadWithin (levels : Nat) {stack : List String}
    (hdepth : config.maxDepth ≤ stack.length + levels + 1) {name : String} {st : State}
    (hst : (steady source config).Holds stack st) :
    Extends loaders st.store (loadWithin source config levels name st).2.store := by
  induction levels generalizing stack name st with
  | zero =>
    rw [Regime.loadWithin_eq]
    apply extends_loadWith hloader hsource _ hst
    intro n st' hst'
    constructor
    · exact (encloses_mentioned (sustained_steady source config) hsource
        (Regime.depth_cons name 0 hdepth) n st' hst').1
    · exact .intern st'.store n
  | succ levels ih =>
    rw [Regime.loadWithin_eq]
    apply extends_loadWith hloader hsource _ hst
    intro n st' hst'
    constructor
    · exact (encloses_mentioned (sustained_steady source config) hsource
        (Regime.depth_cons name (levels + 1) hdepth) n st' hst').1
    · exact extends_orIntern (ih (Regime.depth_cons name (levels + 1) hdepth) hst')

theorem extends_load (name : String) {st : State} (hst : (steady source config).Holds [] st) :
    Extends loaders st.store (load source config name st).2.store :=
  extends_loadWithin hloader hsource (config.maxDepth - 1) (Regime.depth_nil config) hst

end Loads

section Calls

variable {loaders : Source × Config → Prop}

theorem Call.extends {c : Call} (hc : c.Faithful) {st : State}
    (hst : ∀ source config, (steady source config).Holds [] st) :
    Extends (fun p => c.loader? = some p) st.store (c.perform st).store := by
  cases c with
  | intern name => exact .intern st.store name
  | load source config name =>
    have hloader : (Call.load source config name).loader? = some (source, config) := rfl
    exact extends_load hloader (hc source config hloader) name (hst source config)
  | ensure source config name =>
    have hloader : (Call.ensure source config name).loader? = some (source, config) := rfl
    rw [Call.perform, store_of_ensure]
    exact extends_load hloader (hc source config hloader) name (hst source config)
  | newLoader => exact .refl st.store

theorem extends_performAll {calls : List Call} (hcalls : ∀ c ∈ calls, c.Faithful) {st : State}
    (hst : ∀ source config, (steady source config).Holds [] st) :
    Extends (fun p => ∃ c ∈ calls, c.loader? = some p) st.store (performAll calls st).store := by
  induction calls generalizing st with
  | nil => exact .refl st.store
  | cons c calls ih =>
    have hfirst := Call.extends (hcalls c (by simp)) hst
    have hrest := ih (fun d hd => hcalls d (by simp [hd])) (steady_perform (hcalls c (by simp)) hst)
    refine (hfirst.imp ?_).trans (hrest.imp ?_)
    · intro p hp
      exact ⟨c, by simp, hp⟩
    · rintro p ⟨d, hd, hp⟩
      exact ⟨d, by simp [hd], hp⟩

end Calls

/-- Every call keeps names and places one to one, every name at its place and every definition as it
is. The other declarations of a later store are those of before, placeholders of new names, and
what the loaders that were called made of the stubs of their own names where there was a
placeholder. -/
theorem store_of_calls (calls later : List Call) (hcalls : ∀ c ∈ calls ++ later, c.Faithful) :
    let before := (after calls).store
    let now := (after (calls ++ later)).store
    (∀ id, id.index < now.size → now.lookup? (now.name id) = some id) ∧
    (∀ i j, i.index < now.size → j.index < now.size → now.name i = now.name j → i = j) ∧
    before.size ≤ now.size ∧
    (∀ id, id.index < before.size → now.name id = before.name id) ∧
    (∀ id, (before.get id).isPlaceholder = false → now.get id = before.get id) ∧
    ∀ id, id.index < now.size →
      (id.index < before.size ∧ now.get id = before.get id) ∨
      (before.size ≤ id.index ∧ now.get id = .placeholder (now.name id)) ∨
      ((before.get id).isPlaceholder = true ∧
        ∃ c ∈ later, ∃ source config, c.loader? = some (source, config) ∧
          Made source config id (now.get id) before now) := by
  intro before now
  have hbefore : ∀ source config, (steady source config).Holds [] (after calls) :=
    steady_after fun c hc => hcalls c (List.mem_append_left later hc)
  have hsound : now.Sound := (steady_after hcalls (fun _ => none) {}).sound
  have hextends : Extends (fun p => ∃ c ∈ later, c.loader? = some p) before now := by
    have hlater :=
      extends_performAll (fun c hc => hcalls c (List.mem_append_right calls hc)) hbefore
    rwa [← after_append] at hlater
  refine ⟨fun id hid => hsound.lookup?_name hid, hsound.distinct, hextends.grows.size_le,
    hextends.grows.name_eq, hextends.grows.get_eq, ?_⟩
  intro id hid
  cases hp : (before.get id).isPlaceholder with
  | false =>
    exact Or.inl ⟨Store.index_lt_of_defined hp, hextends.grows.get_eq id hp⟩
  | true =>
    cases hnow : (now.get id).isPlaceholder with
    | false =>
      obtain ⟨source, config, ⟨c, hc, hloader⟩, hmade⟩ := hextends.made id hp hnow
      exact Or.inr (Or.inr ⟨rfl, c, hc, source, config, hloader, hmade⟩)
    | true =>
      by_cases hold : id.index < before.size
      · -- a placeholder is nothing but its name, which stays
        refine Or.inl ⟨hold, ?_⟩
        rw [hsound.bare id hnow, (hbefore (fun _ => none) {}).sound.bare id hp,
          hextends.grows.name_eq id hold]
      · exact Or.inr (Or.inl ⟨by omega, hsound.bare id hnow⟩)

/-- A name is interned and a load of another class fails before the class of the name is loaded. -/
theorem store_of_mixed_calls :
    let calls := [Call.intern "p.B", .load brokenSource {} "p.A"]
    let later := [Call.newLoader, .ensure (ofStubs [bareStub "p.B"]) {} "p.B"]
    (∀ c ∈ calls ++ later, c.Faithful) ∧
    ((after calls).store.get ⟨14⟩).isPlaceholder = true ∧
    (after (calls ++ later)).store.name ⟨14⟩ = "p.B" ∧
    Made (ofStubs [bareStub "p.B"]) {} ⟨14⟩ ((after (calls ++ later)).store.get ⟨14⟩)
      (after calls).store (after (calls ++ later)).store := by
  intro calls later
  have hcalls : ∀ c ∈ calls ++ later, c.Faithful := by
    have hbroken : Faithful brokenSource := faithful_ofStubs _
    simp [calls, later, hbroken, faithful_ofStubs]
  have hdefined : ((after (calls ++ later)).store.get ⟨14⟩).isPlaceholder = false := by
    decide +kernel
  obtain ⟨_, _, _, _, hkept, hchanged⟩ := store_of_calls calls later hcalls
  refine ⟨hcalls, by decide +kernel, by decide +kernel, ?_⟩
  rcases hchanged ⟨14⟩ (Store.index_lt_of_defined hdefined) with
    ⟨_, hsame⟩ | ⟨_, hplaceholder⟩ | ⟨_, c, hc, source, config, hloader, hmade⟩
  · rw [hsame] at hdefined
    exact absurd hdefined (by decide +kernel)
  · rw [hplaceholder] at hdefined
    cases hdefined
  · rcases List.mem_cons.mp hc with rfl | hc
    · cases hloader
    · obtain rfl := List.mem_singleton.mp hc
      obtain ⟨rfl, rfl⟩ := Prod.mk.inj (Option.some.inj hloader)
      exact hmade

end JvmTypes.Loader
