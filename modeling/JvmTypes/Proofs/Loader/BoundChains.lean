import JvmTypes.Proofs.Loader.Circles
import JvmTypes.Proofs.Loader.Parameters
import JvmTypes.Proofs.Signature.Grammar
/-!
# Chains of first bounds

The type parameters of a list bound one another: from each a chain of first bounds leads to others
of the list, until it comes to a bound of another kind or goes round in a circle. The erasure of a
parameter is what its chain ends with. The places that a chain has come by are pairwise different
and each leads to the place at hand, so to come by one of them again is to be on a circle, and no
chain goes on for longer than the list.
-/
namespace JvmTypes.Loader

open Signature Relation

/-- The place in the list of the type parameter that the first bound of `p` names. -/
def nextOf? (params : List TypeParameter) (p : TypeParameter) : Option Nat :=
  match p.bounds.head? with
  | some (.variable name) => params.findIdx? (·.name = name)
  | _ => none

def nextPlace? (params : List TypeParameter) (place : Nat) : Option Nat :=
  params[place]?.bind (nextOf? params)

def boundErasure (resolve : Resolver) (sur : Surroundings) (p : TypeParameter) :
    Load SignatureFault Erased :=
  match p.bounds.head? with
  | none => pure .object
  | some (.variable name) => do
    let v ← resolveVariable sur name
    pure v.erasure
  | some (.classType c) => do
    let id ← classNamed resolve c
    pure (.cls id)
  | some _ => throw (.nonClassBound p.name)

def namedErasure (resolve : Resolver) (sur : Surroundings) (params : List TypeParameter)
    (entry : Nat × TypeParameter) : Load SignatureFault (String × Erased) := do
  let e ← parameterErasure resolve sur params (params.length + 2) [] entry.1
  pure (entry.2.name, e)

section Chains

variable {resolve : Resolver} {sur : Surroundings} {params : List TypeParameter}
  {p q : TypeParameter} {steps steps' place next : Nat} {visited : List Nat}

theorem parameterErasure_succ (hp : params[place]? = some p) :
    parameterErasure resolve sur params (steps + 1) visited place =
      match nextOf? params p with
      | none => boundErasure resolve sur p
      | some next =>
        if place ∈ visited then throw (.cyclicBound p.name)
        else parameterErasure resolve sur params steps (place :: visited) next := by
  rw [parameterErasure, hp]
  rcases hb : p.bounds.head? with _ | ⟨b | c | name | c⟩ <;> simp only [nextOf?, boundErasure, hb]
  cases params.findIdx? (·.name = name) <;> rfl

theorem nextPlace?_eq (hp : params[place]? = some p) :
    nextPlace? params place = nextOf? params p := by
  rw [nextPlace?, hp, Option.bind_some]

theorem lt_of_nextPlace? (h : nextPlace? params place = some next) : next < params.length := by
  obtain ⟨p, _, hnext⟩ := Option.bind_eq_some_iff.mp h
  unfold nextOf? at hnext
  split at hnext
  · exact (List.findIdx?_eq_some_iff_getElem.mp hnext).1
  · cases hnext

/-- The places that a chain has come by on its way to `place`. -/
structure CameBy (params : List TypeParameter) (visited : List Nat) (place : Nat) : Prop where
  here : place < params.length
  nodup : visited.Nodup
  within : ∀ i ∈ visited, i < params.length
  leads : ∀ i ∈ visited, TransGen (Linked (nextPlace? params)) i place

namespace CameBy

theorem start (h : place < params.length) : CameBy params [] place := ⟨h, .nil, by simp, by simp⟩

theorem exists_parameter (h : CameBy params visited place) : ∃ p, params[place]? = some p :=
  ⟨_, List.getElem?_eq_getElem h.here⟩

theorem length_le (h : CameBy params visited place) : visited.length ≤ params.length :=
  length_visited_le h.nodup h.within

theorem step (h : CameBy params visited place) (hnew : place ∉ visited)
    (hnext : nextPlace? params place = some next) :
    CameBy params (place :: visited) next := by
  refine ⟨lt_of_nextPlace? hnext, List.nodup_cons.mpr ⟨hnew, h.nodup⟩, ?_, ?_⟩
  · intro i hi
    rcases List.mem_cons.mp hi with rfl | hi
    · exact h.here
    · exact h.within i hi
  · intro i hi
    rcases List.mem_cons.mp hi with rfl | hi
    · exact .single hnext
    · exact (h.leads i hi).tail hnext

end CameBy

def EndsWith (params : List TypeParameter) (place : Nat) (q : TypeParameter) : Prop :=
  ∃ last, StopsAt (nextPlace? params) place last ∧ params[last]? = some q

def CirclesAt (params : List TypeParameter) (place : Nat) (q : TypeParameter) : Prop :=
  ∃ around, ReflTransGen (Linked (nextPlace? params)) place around ∧
    TransGen (Linked (nextPlace? params)) around around ∧ params[around]? = some q

theorem EndsWith.of_next (hnext : nextPlace? params place = some next)
    (h : EndsWith params next q) : EndsWith params place q := by
  obtain ⟨last, hstops, hq⟩ := h
  exact ⟨last, ⟨.head hnext hstops.1, hstops.2⟩, hq⟩

theorem CirclesAt.of_next (hnext : nextPlace? params place = some next)
    (h : CirclesAt params next q) : CirclesAt params place q := by
  obtain ⟨around, hreach, hcircle, hq⟩ := h
  exact ⟨around, .head hnext hreach, hcircle, hq⟩

/-- The erasure of a type parameter is what its chain ends with, or a fault at a circle. -/
theorem parameterErasure_eq (h : CameBy params visited place)
    (hsteps : params.length < steps + visited.length) :
    (∃ q, EndsWith params place q ∧
        parameterErasure resolve sur params steps visited place = boundErasure resolve sur q) ∨
      ∃ q, CirclesAt params place q ∧
        parameterErasure resolve sur params steps visited place = throw (.cyclicBound q.name) := by
  induction steps generalizing place visited with
  | zero =>
    have hlen := h.length_le
    omega
  | succ steps ih =>
    obtain ⟨p, hp⟩ := h.exists_parameter
    have hplace := nextPlace?_eq hp
    rw [parameterErasure_succ hp]
    cases hnext : nextOf? params p with
    | none =>
      rw [hnext] at hplace
      exact Or.inl ⟨p, ⟨place, ⟨.refl, hplace⟩, hp⟩, rfl⟩
    | some next =>
      rw [hnext] at hplace
      by_cases hmem : place ∈ visited
      · simp only [if_pos hmem]
        exact Or.inr ⟨p, ⟨place, .refl, h.leads place hmem, hp⟩, rfl⟩
      · simp only [if_neg hmem]
        have hrest : params.length < steps + (place :: visited).length := by
          rw [List.length_cons]
          omega
        rcases ih (h.step hmem hplace) hrest with ⟨q, hq, heq⟩ | ⟨q, hq, heq⟩
        · exact Or.inl ⟨q, hq.of_next hplace, heq⟩
        · exact Or.inr ⟨q, hq.of_next hplace, heq⟩

theorem parameterErasure_steps (h : CameBy params visited place)
    (hsteps : params.length < steps + visited.length)
    (hsteps' : params.length < steps' + visited.length) :
    parameterErasure resolve sur params steps visited place =
      parameterErasure resolve sur params steps' visited place := by
  have hlen := h.length_le
  induction steps generalizing steps' place visited with
  | zero => omega
  | succ steps ih =>
    obtain ⟨steps', rfl⟩ := Nat.exists_eq_succ_of_ne_zero (by omega : steps' ≠ 0)
    obtain ⟨p, hp⟩ := h.exists_parameter
    rw [parameterErasure_succ hp, parameterErasure_succ hp]
    cases hnext : nextOf? params p with
    | none => rfl
    | some next =>
      by_cases hmem : place ∈ visited
      · simp only [if_pos hmem]
      · simp only [if_neg hmem]
        have hstep := h.step hmem ((nextPlace?_eq hp).trans hnext)
        exact ih hstep (by rw [List.length_cons]; omega) (by rw [List.length_cons]; omega)
          hstep.length_le

theorem CirclesAt.runsInCircle (h : CirclesAt params place q) :
    RunsInCircle (nextPlace? params) place := by
  obtain ⟨around, hreach, hcircle, _⟩ := h
  exact ⟨around, hreach, hcircle⟩

theorem EndsWith.not_runsInCircle (h : EndsWith params place q) :
    ¬ RunsInCircle (nextPlace? params) place := by
  obtain ⟨last, hstops, _⟩ := h
  exact hstops.chainEnds.not_runsInCircle

theorem EndsWith.unique (hp : EndsWith params place p) (hq : EndsWith params place q) : p = q := by
  obtain ⟨last, hstops, hp⟩ := hp
  obtain ⟨last', hstops', hq⟩ := hq
  obtain rfl := hstops.unique hstops'
  exact Option.some.inj (hp.symm.trans hq)

theorem EndsWith.mem (h : EndsWith params place q) : q ∈ params := by
  obtain ⟨last, _, hq⟩ := h
  exact List.mem_of_getElem? hq

theorem EndsWith.nextOf?_eq_none (h : EndsWith params place q) : nextOf? params q = none := by
  obtain ⟨last, hstops, hq⟩ := h
  rw [← nextPlace?_eq hq, hstops.2]

/-- Neither a class nor a type variable bounds `p` first. -/
def HasArrayBound (p : TypeParameter) : Prop :=
  (∃ c, p.bounds.head? = some (.array c)) ∨ ∃ b, p.bounds.head? = some (.base b)

def Unerasable (params : List TypeParameter) (place : Nat) : Prop :=
  RunsInCircle (nextPlace? params) place ∨ ∃ q, EndsWith params place q ∧ HasArrayBound q

/-- What is wrong with the chain from a place. -/
inductive ChainFault (params : List TypeParameter) (place : Nat) : SignatureFault → Prop
  | cyclic {q : TypeParameter} (hq : CirclesAt params place q) :
      ChainFault params place (.cyclicBound q.name)
  | nonClass {q : TypeParameter} (hq : EndsWith params place q) (harray : HasArrayBound q) :
      ChainFault params place (.nonClassBound q.name)

theorem ChainFault.unerasable {f : SignatureFault} (h : ChainFault params place f) :
    Unerasable params place := by
  cases h with
  | cyclic hq => exact Or.inl hq.runsInCircle
  | nonClass hq harray => exact Or.inr ⟨_, hq, harray⟩

theorem EndsWith.not_unerasable (h : EndsWith params place q) (harray : ¬ HasArrayBound q) :
    ¬ Unerasable params place := by
  rintro (hcircle | ⟨q', hq', harray'⟩)
  · exact h.not_runsInCircle hcircle
  · obtain rfl := h.unique hq'
    exact harray harray'

end Chains

theorem Surroundings.resolve?_mono {sur : Surroundings} {s t : Store} (hs : s.Sound)
    (h : s.Grows t) {name : String} {v : TypeVariable} (hv : sur.resolve? s name = some v) :
    sur.resolve? t name = some v := by
  cases hm : Erasures.get? sur.methodVariables name with
  | some e => simpa [resolve?, hm] using hv
  | none =>
    cases hc : Erasures.get? sur.classVariables name with
    | some e => simpa [resolve?, hm, hc] using hv
    | none =>
      rw [resolve?_eq_seenFrom hm hc] at hv ⊢
      exact seenFrom_mono h hs hv

/-- Erasure by the bound that ends a chain, with the classes that the store `s` names and the
variables that could be seen in the store `start`. -/
inductive EndErasure (sur : Surroundings) (start s : Store) (q : TypeParameter) : Erased → Prop
  | unbounded (hb : q.bounds.head? = none) : EndErasure sur start s q .object
  | cls {c : ClassTree} {id : ClassId} (hb : q.bounds.head? = some (.classType c))
      (hid : s.lookup? (Name.toBinary c.internalName) = some id) :
      EndErasure sur start s q (.cls id)
  | outer {name : String} {v : TypeVariable} (hb : q.bounds.head? = some (.variable name))
      (hv : sur.resolve? start name = some v) : EndErasure sur start s q v.erasure

theorem EndErasure.mono {sur : Surroundings} {start s t : Store} {q : TypeParameter} {e : Erased}
    (h : s.Grows t) (he : EndErasure sur start s q e) : EndErasure sur start t q e := by
  cases he with
  | unbounded hb => exact .unbounded hb
  | cls hb hid => exact .cls hb (h.lookup? hid)
  | outer hb hv => exact .outer hb hv

/-- Started in `st`, whatever the first bounds refer to is found: each class from every state on the
way, and each variable that is none of the list. -/
structure BoundsResolve (resolve : Resolver) (sur : Surroundings) (params : List TypeParameter)
    (ready : State → Prop) (st : State) : Prop where
  here : ready st
  sound : st.store.Sound
  cls : ∀ st', ready st' → ∀ p ∈ params, ∀ c, p.bounds.head? = some (.classType c) →
    ∃ id st'', resolve (Name.toBinary c.internalName) st' = (.ok id, st'') ∧ ready st'' ∧
      st'.store.Grows st''.store ∧ st''.store.lookup? (Name.toBinary c.internalName) = some id
  var : ∀ p ∈ params, ∀ name, p.bounds.head? = some (.variable name) →
    nextOf? params p = none → (sur.resolve? st.store name).isSome

namespace BoundsResolve

variable {resolve : Resolver} {sur : Surroundings} {params : List TypeParameter}
  {ready : State → Prop} {st st' : State} {p q : TypeParameter} {place : Nat}
  (h : BoundsResolve resolve sur params ready st)
include h

theorem run_boundErasure (hready : ready st') (hgrows : st.store.Grows st'.store)
    (hq : q ∈ params) (hnext : nextOf? params q = none) :
    (HasArrayBound q ∧
        boundErasure resolve sur q st' = (.error (.nonClassBound q.name), st')) ∨
      (¬ HasArrayBound q ∧ ∃ e st'', boundErasure resolve sur q st' = (.ok e, st'') ∧
        ready st'' ∧ st'.store.Grows st''.store ∧ EndErasure sur st.store st''.store q e) := by
  rcases hb : q.bounds.head? with _ | ⟨b | c | name | c⟩
  · refine Or.inr ⟨by simp [HasArrayBound, hb], .object, st', ?_, hready, .refl _, .unbounded hb⟩
    simp only [boundErasure, hb]
    rfl
  · refine Or.inl ⟨Or.inr ⟨b, hb⟩, ?_⟩
    simp only [boundErasure, hb]
    rfl
  · obtain ⟨id, st'', hid, hready', hgrows', hlookup⟩ := h.cls st' hready q hq c hb
    refine Or.inr ⟨by simp [HasArrayBound, hb], .cls id, st'', ?_, hready', hgrows',
      .cls hb hlookup⟩
    have hnamed : classNamed resolve c st' = (.ok id, st'') := by
      simp only [classNamed, referenced, hid]
    simp only [boundErasure, hb]
    rw [Frame.bind_of_ok hnamed]
    rfl
  · obtain ⟨v, hv⟩ := Option.isSome_iff_exists.mp (h.var q hq name hb hnext)
    refine Or.inr ⟨by simp [HasArrayBound, hb], v.erasure, st', ?_, hready, .refl _, .outer hb hv⟩
    have hnamed : resolveVariable sur name st' = (.ok v, st') := by
      have hv' := Surroundings.resolve?_mono h.sound hgrows hv
      rw [resolveVariable, Frame.bind_of_ok (m := getStore) rfl]
      simp only [hv']
      rfl
    simp only [boundErasure, hb]
    rw [Frame.bind_of_ok hnamed]
    rfl
  · refine Or.inl ⟨Or.inl ⟨c, hb⟩, ?_⟩
    simp only [boundErasure, hb]
    rfl

theorem run_namedErasure (hready : ready st') (hgrows : st.store.Grows st'.store)
    (hp : params[place]? = some p) :
    (∃ f, ChainFault params place f ∧
        namedErasure resolve sur params (place, p) st' = (.error f, st')) ∨
      (¬ Unerasable params place ∧ ∃ q e st'', EndsWith params place q ∧
        namedErasure resolve sur params (place, p) st' = (.ok (p.name, e), st'') ∧
        ready st'' ∧ st'.store.Grows st''.store ∧ EndErasure sur st.store st''.store q e) := by
  obtain ⟨hplace, _⟩ := List.getElem?_eq_some_iff.mp hp
  have hsteps : params.length < params.length + 2 + ([] : List Nat).length := by simp
  rw [namedErasure]
  rcases parameterErasure_eq (.start hplace) hsteps with ⟨q, hq, heq⟩ | ⟨q, hq, heq⟩
  · rw [heq]
    rcases h.run_boundErasure hready hgrows hq.mem hq.nextOf?_eq_none with
      ⟨harray, hrun⟩ | ⟨harray, e, st'', hrun, hrest⟩
    · exact Or.inl ⟨_, .nonClass hq harray, Frame.bind_of_error hrun⟩
    · exact Or.inr ⟨hq.not_unerasable harray, q, e, st'', hq, Frame.bind_of_ok hrun, hrest⟩
  · rw [heq]
    exact Or.inl ⟨_, .cyclic hq, rfl⟩

theorem run_entries (hready : ready st') (hgrows : st.store.Grows st'.store) {k : Nat}
    {ps : List TypeParameter} (hps : params.drop k = ps)
    (hbefore : ∀ i < k, ¬ Unerasable params i) :
    (∃ place f st'', place < params.length ∧ (∀ i < place, ¬ Unerasable params i) ∧
        ChainFault params place f ∧
        ((List.range' k ps.length).zip ps).mapM (namedErasure resolve sur params) st' =
          (.error f, st'')) ∨
      ∃ es st'', (∀ i < params.length, ¬ Unerasable params i) ∧
        ((List.range' k ps.length).zip ps).mapM (namedErasure resolve sur params) st' =
          (.ok es, st'') ∧
        ready st'' ∧ st'.store.Grows st''.store ∧ es.map (·.1) = ps.map (·.name) ∧
        ∀ place p, k ≤ place → params[place]? = some p →
          ∃ q e, EndsWith params place q ∧ EndErasure sur st.store st''.store q e ∧
            (p.name, e) ∈ es := by
  induction ps generalizing k st' with
  | nil =>
    have hall : params.length ≤ k := List.drop_eq_nil_iff.mp hps
    refine Or.inr ⟨[], st', fun i hi => hbefore i (by omega), rfl, hready, .refl _, rfl, ?_⟩
    intro place p hk hp
    obtain ⟨hlt, _⟩ := List.getElem?_eq_some_iff.mp hp
    omega
  | cons p ps ih =>
    have hp : params[k]? = some p := by
      rw [← List.head?_drop, hps, List.head?_cons]
    have hrest : params.drop (k + 1) = ps := by
      rw [← List.tail_drop, hps, List.tail_cons]
    obtain ⟨hk, _⟩ := List.getElem?_eq_some_iff.mp hp
    rw [List.length_cons, List.range'_succ, List.zip_cons_cons, List.mapM_cons]
    rcases h.run_namedErasure hready hgrows hp with
      ⟨f, hf, hrun⟩ | ⟨hfine, q, e, st₁, hq, hrun, hready₁, hgrows₁, he⟩
    · exact Or.inl ⟨k, f, st', hk, hbefore, hf, Frame.bind_of_error hrun⟩
    · rw [Frame.bind_of_ok hrun]
      have hbefore' : ∀ i < k + 1, ¬ Unerasable params i := by
        intro i hi
        rcases Nat.lt_succ_iff_lt_or_eq.mp hi with hlt | rfl
        · exact hbefore i hlt
        · exact hfine
      rcases ih hready₁ (hgrows.trans hgrows₁) hrest hbefore' with
        ⟨place, f, st₂, hplace, hfirst, hf, hrun₂⟩ |
        ⟨es, st₂, hall, hrun₂, hready₂, hgrows₂, hkeys, hes⟩
      · exact Or.inl ⟨place, f, st₂, hplace, hfirst, hf, Frame.bind_of_error hrun₂⟩
      · refine Or.inr ⟨(p.name, e) :: es, st₂, hall, Frame.bind_of_ok hrun₂, hready₂,
          hgrows₁.trans hgrows₂, ?_, ?_⟩
        · rw [List.map_cons, List.map_cons, hkeys]
        · intro place p' hle hp'
          rcases Nat.eq_or_lt_of_le hle with rfl | hlt
          · obtain rfl := Option.some.inj (hp.symm.trans hp')
            exact ⟨q, e, hq, he.mono hgrows₂, by simp⟩
          · obtain ⟨q', e', hq', he', hmem⟩ := hes place p' hlt hp'
            exact ⟨q', e', hq', he', List.mem_cons_of_mem _ hmem⟩

theorem run_parameterErasures :
    (∃ place f st', place < params.length ∧ (∀ i < place, ¬ Unerasable params i) ∧
        ChainFault params place f ∧ parameterErasures resolve sur params st = (.error f, st')) ∨
      ∃ es st', (∀ i < params.length, ¬ Unerasable params i) ∧
        parameterErasures resolve sur params st = (.ok es, st') ∧
        es.map (·.1) = params.map (·.name) ∧
        ∀ place p, params[place]? = some p →
          ∃ q e, EndsWith params place q ∧ EndErasure sur st.store st'.store q e ∧
            (p.name, e) ∈ es := by
  have hrun := h.run_entries h.here (.refl _) (k := 0) List.drop_zero (by simp)
  rw [← List.range_eq_range'] at hrun
  rcases hrun with
    ⟨place, f, st', hplace, hfirst, hf, hrun⟩ | ⟨es, st', hall, hrun, _, _, hkeys, hes⟩
  · exact Or.inl ⟨place, f, st', hplace, hfirst, hf, hrun⟩
  · exact Or.inr ⟨es, st', hall, hrun, hkeys, fun place p => hes place p (Nat.zero_le _)⟩

end BoundsResolve

/-- The erasures of a list of type parameters tell its chains. No chain is cut short. The list has
no erasures exactly if a chain runs in a circle or ends with an array, and then the first such chain
says why. Otherwise each name has the erasure that the chain of its parameter ends with. -/
structure FollowsChains (resolve : Resolver) (sur : Surroundings) (params : List TypeParameter)
    (st : State) : Prop where
  ends : ∀ place < params.length, ∀ steps, params.length < steps →
    parameterErasure resolve sur params steps [] place =
      parameterErasure resolve sur params (params.length + 2) [] place
  fails_iff : (∃ f, (parameterErasures resolve sur params st).1 = .error f) ↔
    ∃ place < params.length, Unerasable params place
  circle : ∀ place < params.length, (∀ i < place, ¬ Unerasable params i) →
    RunsInCircle (nextPlace? params) place → ∃ q, CirclesAt params place q ∧
      (parameterErasures resolve sur params st).1 = .error (.cyclicBound q.name)
  array : ∀ place < params.length, (∀ i < place, ¬ Unerasable params i) →
    ∀ q, EndsWith params place q → HasArrayBound q →
      (parameterErasures resolve sur params st).1 = .error (.nonClassBound q.name)
  erasures : (∀ place < params.length, ¬ Unerasable params place) →
    ∃ es st', parameterErasures resolve sur params st = (.ok es, st') ∧
      es.map (·.1) = params.map (·.name) ∧
      ∀ place p, params[place]? = some p → ∃ q e, EndsWith params place q ∧
        EndErasure sur st.store st'.store q e ∧ es.get? p.name = some e

section FollowingChains

variable {resolve : Resolver} {sur : Surroundings} {params : List TypeParameter}
  {ready : State → Prop} {st : State}

theorem BoundsResolve.fault_of_first (h : BoundsResolve resolve sur params ready st) {place : Nat}
    (hplace : place < params.length) (hfirst : ∀ i < place, ¬ Unerasable params i)
    (hbad : Unerasable params place) :
    ∃ f, ChainFault params place f ∧ (parameterErasures resolve sur params st).1 = .error f := by
  rcases h.run_parameterErasures with ⟨at', f, st', _, hfirst', hf, hrun⟩ | ⟨_, _, hall, _⟩
  · rcases Nat.lt_trichotomy at' place with hlt | rfl | hgt
    · exact absurd hf.unerasable (hfirst at' hlt)
    · exact ⟨f, hf, by rw [hrun]⟩
    · exact absurd hbad (hfirst' place hgt)
  · exact absurd hbad (hall place hplace)

/-- For type parameters with different names, where all that their first bounds refer to is found,
the erasures of the list follow its chains. -/
theorem parameterErasures_follow_chains (hnames : (params.map (·.name)).Nodup)
    (h : BoundsResolve resolve sur params ready st) : FollowsChains resolve sur params st := by
  constructor
  case ends =>
    intro place hplace steps hsteps
    exact parameterErasure_steps (.start hplace) (by simpa using hsteps) (by simp)
  case fails_iff =>
    rcases h.run_parameterErasures with
      ⟨place, f, st', hplace, _, hf, hrun⟩ | ⟨es, st', hall, hrun, _⟩
    · rw [hrun]
      exact ⟨fun _ => ⟨place, hplace, hf.unerasable⟩, fun _ => ⟨f, rfl⟩⟩
    · rw [hrun]
      constructor
      · rintro ⟨f, hf⟩
        cases hf
      · rintro ⟨place, hplace, hbad⟩
        exact absurd hbad (hall place hplace)
  case circle =>
    intro place hplace hfirst hcircle
    obtain ⟨f, hf, herror⟩ := h.fault_of_first hplace hfirst (Or.inl hcircle)
    cases hf with
    | cyclic hq => exact ⟨_, hq, herror⟩
    | nonClass hq _ => exact absurd hcircle hq.not_runsInCircle
  case array =>
    intro place hplace hfirst q hq harray
    obtain ⟨f, hf, herror⟩ := h.fault_of_first hplace hfirst (Or.inr ⟨q, hq, harray⟩)
    cases hf with
    | cyclic hq' => exact absurd hq'.runsInCircle hq.not_runsInCircle
    | nonClass hq' _ =>
      obtain rfl := hq.unique hq'
      exact herror
  case erasures =>
    intro hall
    rcases h.run_parameterErasures with
      ⟨place, f, st', hplace, _, hf, _⟩ | ⟨es, st', _, hrun, hkeys, hes⟩
    · exact absurd hf.unerasable (hall place hplace)
    · refine ⟨es, st', hrun, hkeys, ?_⟩
      intro place p hp
      obtain ⟨q, e, hq, he, hmem⟩ := hes place p hp
      have hdistinct : (es.map (·.1)).Nodup := by rw [hkeys]; exact hnames
      exact ⟨q, e, hq, he, Erasures.get?_eq_some hdistinct hmem⟩

end FollowingChains

theorem boundsResolve_mentioned {source : Source} {config : Config}
    (hlenient : config.strict = false)
    (hreadable : ∀ name stub, source name = some stub → stub.Readable) (hsource : Faithful source)
    {stack : List String} {levels : Nat} (hdepth : config.maxDepth ≤ stack.length + levels)
    {sur : Surroundings} {params : List TypeParameter} {st : State}
    (hst : (unfailing source config).Holds stack st)
    (hvar : ∀ p ∈ params, ∀ name, p.bounds.head? = some (.variable name) →
      nextOf? params p = none → (sur.resolve? st.store name).isSome) :
    BoundsResolve (Regime.mentioned source config levels) sur params
      ((unfailing source config).Holds stack) st where
  here := hst
  sound := hst.sound
  cls st' hst' p _ c _ := by
    have hrun := Regime.resolves_mentioned (sustained_unfailing hlenient hreadable) hsource hdepth
      (Name.toBinary c.internalName) st' hst' trivial
    rcases hm : Regime.mentioned source config levels (Name.toBinary c.internalName) st' with
      ⟨e | id, st''⟩
    · exact (hrun.eq_error hm).2.2.elim
    · obtain ⟨hinv, hgrows, hlookup, _⟩ := hrun.eq_ok hm
      exact ⟨id, st'', rfl, hinv, hgrows, hlookup⟩
  var := hvar

section Shared

/-- `<T:TU; S:TU; U:Lp/Shape; V:TX; W:>`, where `X` is a variable of the class around. -/
def sharingParameters : List TypeParameter :=
  [⟨"T", some (.variable "U"), []⟩, ⟨"S", none, [.variable "U"]⟩,
    ⟨"U", none, [.classType (.top "p" "Shape" [])]⟩, ⟨"V", some (.variable "X"), []⟩,
    ⟨"W", none, []⟩]

def sharingSurroundings : Surroundings :=
  { declaring := .object, enclosing := none, classVariables := [("X", .cls .string)] }

/-- Two chains end with the class that is loaded for them, one in the scope and one nowhere. -/
theorem sharing_parameters_follow_chains :
    FollowsChains (Regime.mentioned (ofStubs [bareStub "p.Shape"]) {} 64) sharingSurroundings
        sharingParameters { store := .initial } ∧
      (parameterErasures (Regime.mentioned (ofStubs [bareStub "p.Shape"]) {} 64)
          sharingSurroundings sharingParameters { store := .initial }).1.toOption =
        some [("T", .cls ⟨14⟩), ("S", .cls ⟨14⟩), ("U", .cls ⟨14⟩), ("V", .cls .string),
          ("W", .object)] := by
  have hreadable : ∀ name stub, ofStubs [bareStub "p.Shape"] name = some stub →
      stub.Readable := by
    intro name stub hstub
    obtain ⟨hmem, _⟩ := mem_of_ofStubs hstub
    obtain rfl := List.mem_singleton.mp hmem
    decide
  have hst : (unfailing (ofStubs [bareStub "p.Shape"]) {}).Holds [] { store := .initial } :=
    ⟨rfl, .nil, Store.sound_initial, .refl _, by simp, by simp, trivial⟩
  have hvar : ∀ p ∈ sharingParameters, ∀ name, p.bounds.head? = some (.variable name) →
      nextOf? sharingParameters p = none →
      (sharingSurroundings.resolve? .initial name).isSome := by
    intro p hp name hb
    simp only [sharingParameters, List.mem_cons, List.not_mem_nil, or_false] at hp
    rcases hp with rfl | rfl | rfl | rfl | rfl <;> simp [TypeParameter.bounds] at hb
    all_goals subst hb; decide
  refine ⟨?_, by decide +kernel⟩
  exact parameterErasures_follow_chains (by decide)
    (boundsResolve_mentioned rfl hreadable (faithful_ofStubs _) (by decide) hst hvar)

end Shared

end JvmTypes.Loader
