import JvmTypes.Proofs.Loader.Calls
import JvmTypes.Proofs.Loader.Drops
import JvmTypes.Proofs.Loader.Total
/-!
# Strict and lenient loading

Up to the first signature that is dropped a strict loader does what a lenient one does. There it
fails, and so do all loads around: a class that failed to load for a signature is never taken for
one that the source does not know.
-/
namespace JvmTypes

/-- The failure goes back to the signature of a declaration. The signatures around it, if any, could
not be used for that failure. -/
inductive LoadError.StemsFrom (drop : String × SignatureFault) : LoadError → Prop
  | here : StemsFrom drop (.malformedSignature drop.1 drop.2)
  | around {error : LoadError} (owner : String) (h : StemsFrom drop error) :
      StemsFrom drop (.malformedSignature owner (.reference error))

def SignatureFault.Carries (Q : LoadError → Prop) (fault : SignatureFault) : Prop :=
  ∃ error, fault = .reference error ∧ Q error

def SignatureFault.StemsFrom (drop : String × SignatureFault) (fault : SignatureFault) : Prop :=
  fault.Carries (·.StemsFrom drop)

def LoadError.OutsideSignatures (error : LoadError) : Prop :=
  ∀ owner fault, error ≠ .malformedSignature owner fault

theorem LoadError.StemsFrom.exists_owner {drop : String × SignatureFault} {error : LoadError}
    (h : error.StemsFrom drop) : ∃ owner fault, error = .malformedSignature owner fault := by
  cases h with
  | here => exact ⟨_, _, rfl⟩
  | around owner _ => exact ⟨owner, _, rfl⟩

namespace Loader

/-- How a strict run goes, seen from the lenient one: the same, or it fails for the first signature
that the lenient run drops. -/
inductive MirrorsAt (stems : String × SignatureFault → ε → Prop) (lenient strict : Load ε α)
    (st : State) : Prop
  | same (hdropped : (lenient st).2.dropped = st.dropped) (heq : strict st = lenient st) :
      MirrorsAt stems lenient strict st
  | fails (drop : String × SignatureFault) (rest : List (String × SignatureFault)) (e : ε)
      (hdropped : (lenient st).2.dropped = st.dropped ++ drop :: rest)
      (herror : (strict st).1 = .error e) (hstems : stems drop e) :
      MirrorsAt stems lenient strict st

def Mirrors (stems : String × SignatureFault → ε → Prop) (lenient strict : Load ε α) : Prop :=
  ∀ st, MirrorsAt stems lenient strict st

section Mirrors

variable {stems : String × SignatureFault → ε → Prop} {lenient strict : Load ε α} {st : State}

theorem mirrors_of_quiet {m : Load ε α} (h : ∀ st, (m st).2.dropped = st.dropped) :
    Mirrors stems m m :=
  fun st => .same (h st) rfl

theorem MirrorsAt.exists_drops (h : MirrorsAt stems lenient strict st) :
    ∃ drops, (lenient st).2.dropped = st.dropped ++ drops := by
  cases h with
  | same hdropped _ => exact ⟨[], by rw [hdropped, List.append_nil]⟩
  | fails drop rest _ hdropped _ _ => exact ⟨drop :: rest, hdropped⟩

theorem Mirrors.bind {f g : α → Load ε β} (h : Mirrors stems lenient strict)
    (hf : ∀ a, Mirrors stems (f a) (g a)) : Mirrors stems (lenient >>= f) (strict >>= g) := by
  intro st
  cases h st with
  | same hdropped heq =>
    cases hm : (lenient st).1 with
    | ok a =>
      have hlenient : (lenient >>= f) st = f a (lenient st).2 := Frame.bind_ok hm
      have hstrict : (strict >>= g) st = g a (lenient st).2 := by
        rw [Frame.bind_ok (by rw [heq, hm]), heq]
      cases hf a (lenient st).2 with
      | same hdropped' heq' =>
        exact .same (by rw [hlenient, hdropped', hdropped]) (by rw [hlenient, hstrict, heq'])
      | fails drop rest e hdropped' herror hstems =>
        exact .fails drop rest e (by rw [hlenient, hdropped', hdropped]) (by rw [hstrict, herror])
          hstems
    | error e =>
      have hlenient : (lenient >>= f) st = (.error e, (lenient st).2) := Frame.bind_error hm
      have hstrict : (strict >>= g) st = (.error e, (lenient st).2) := by
        rw [Frame.bind_error (by rw [heq, hm]), heq]
      exact .same (by rw [hlenient, hdropped]) (by rw [hlenient, hstrict])
  | fails drop rest e hdropped herror hstems =>
    -- the strict run is over, and the lenient one drops at most more signatures
    have hstrict : ((strict >>= g) st).1 = .error e := by rw [Frame.bind_error herror]
    cases hm : (lenient st).1 with
    | ok a =>
      obtain ⟨more, hmore⟩ := (hf a (lenient st).2).exists_drops
      refine .fails drop (rest ++ more) e ?_ hstrict hstems
      rw [Frame.bind_ok hm, hmore, hdropped, List.append_assoc, List.cons_append]
    | error _ => exact .fails drop rest e (by rw [Frame.bind_error hm, hdropped]) hstrict hstems

theorem Mirrors.progressing (h : Mirrors stems lenient strict) (name : String) :
    Mirrors stems (progressing name lenient) (progressing name strict) := by
  intro st
  cases h { st with inProgress := name :: st.inProgress } with
  | same hdropped heq => exact .same hdropped (by simp only [Loader.progressing, heq])
  | fails drop rest e hdropped herror hstems => exact .fails drop rest e hdropped herror hstems

end Mirrors

section Resolving

variable {lenient strict : Load LoadError α}

theorem mapError_reference_injective {r r' : Except LoadError α}
    (h : r.mapError SignatureFault.reference = r'.mapError .reference) : r = r' := by
  cases r <;> cases r' <;> simp_all [Except.mapError]

theorem Mirrors.wrapped (h : Mirrors LoadError.StemsFrom lenient strict) :
    Mirrors SignatureFault.StemsFrom (wrapped lenient) (wrapped strict) := by
  intro st
  cases h st with
  | same hdropped heq =>
    refine .same ?_ ?_
    · rw [wrapped_apply, hdropped]
    · rw [wrapped_apply, wrapped_apply, heq]
  | fails drop rest e hdropped herror hstems =>
    refine .fails drop rest (.reference e) ?_ ?_ ⟨e, rfl, hstems⟩
    · rw [wrapped_apply, hdropped]
    · rw [wrapped_apply, herror]
      rfl

theorem Mirrors.of_wrapped
    (h : Mirrors SignatureFault.StemsFrom (Loader.wrapped lenient) (Loader.wrapped strict)) :
    Mirrors LoadError.StemsFrom lenient strict := by
  intro st
  cases h st with
  | same hdropped heq =>
    rw [wrapped_apply] at hdropped
    rw [wrapped_apply, wrapped_apply, Prod.mk.injEq] at heq
    exact .same hdropped (Prod.ext (mapError_reference_injective heq.1) heq.2)
  | fails drop rest _ hdropped herror hstems =>
    obtain ⟨error, rfl, hstems⟩ := hstems
    rw [wrapped_apply] at hdropped herror
    have hfailed : (strict st).1 = .error error := mapError_reference_injective herror
    exact .fails drop rest error hdropped hfailed hstems

theorem Mirrors.orIntern {lenient strict : Resolver}
    (h : ∀ name, Mirrors LoadError.StemsFrom (lenient name) (strict name)) (name : String) :
    Mirrors LoadError.StemsFrom (orIntern lenient name) (orIntern strict name) := by
  intro st
  have hdrops := dropped_orIntern lenient name st
  cases h name st with
  | same hdropped heq => exact .same (hdrops.trans hdropped) (by simp only [Loader.orIntern, heq])
  | fails drop rest _ hdropped herror hstems =>
    obtain ⟨owner, fault, rfl⟩ := hstems.exists_owner
    refine .fails drop rest _ (hdrops.trans hdropped) ?_ hstems
    rcases hm : strict name st with ⟨e' | id, st'⟩ <;> simp_all [Loader.orIntern]

end Resolving

section Configs

variable {lenient strict : Config} (hlenient : lenient.strict = false)
  (hstrict : strict.strict = true)
include hlenient hstrict

/-- This is where the two part: the lenient loader notes the signature that cannot be used. -/
theorem Mirrors.settle {l s : Load SignatureFault α} (h : Mirrors SignatureFault.StemsFrom l s)
    (owner : String) :
    Mirrors LoadError.StemsFrom (settle lenient owner l) (settle strict owner s) := by
  intro st
  cases h st with
  | same hdropped heq =>
    rcases hl : l st with ⟨fault | a, st'⟩ <;> rw [hl] at hdropped heq
    · refine .fails (owner, fault) [] (.malformedSignature owner fault) ?_ ?_ .here
      · simp [Loader.settle, hl, hlenient, ← hdropped]
      · simp [Loader.settle, heq, hstrict]
    · refine .same ?_ ?_
      · simpa only [Loader.settle, hl] using hdropped
      · simp only [Loader.settle, hl, heq]
  | fails drop rest e hdropped herror hstems =>
    obtain ⟨error, rfl, hstems⟩ := hstems
    have hfailed : (Loader.settle strict owner s st).1 =
        .error (.malformedSignature owner (.reference error)) := by
      rcases hs : s st with ⟨f | b, st'⟩ <;> rw [hs] at herror
      · obtain rfl := Except.error.inj herror
        simp [Loader.settle, hs, hstrict]
      · cases herror
    rcases hl : l st with ⟨fault | a, st'⟩ <;> rw [hl] at hdropped
    · refine .fails drop (rest ++ [(owner, fault)]) _ ?_ hfailed (.around owner hstems)
      simp only [Loader.settle, hl, hlenient]
      change st'.dropped ++ [(owner, fault)] = _
      rw [show st'.dropped = _ from hdropped, List.append_assoc, List.cons_append]
    · refine .fails drop rest _ ?_ hfailed (.around owner hstems)
      simpa only [Loader.settle, hl] using hdropped

variable {resolve resolve' : Resolver}
  (hresolve : ∀ name, Mirrors LoadError.StemsFrom (resolve name) (resolve' name))
include hresolve

theorem mirrors_run (enclosing : Option ClassId) (p : Script α) :
    Mirrors SignatureFault.StemsFrom (p.run resolve lenient enclosing)
      (p.run resolve' strict enclosing) := by
  induction p with
  | done a => exact mirrors_of_quiet fun _ => rfl
  | fail fault => exact mirrors_of_quiet fun _ => rfl
  | askClass name next ih =>
    rw [Script.run, Script.run, ← wrapped_resolve, ← wrapped_resolve]
    exact (hresolve name).wrapped.bind ih
  | askVariable symbol next ih =>
    have hstore : Mirrors SignatureFault.StemsFrom getStore getStore :=
      mirrors_of_quiet fun _ => rfl
    exact hstore.bind fun s => ih _
  | attempt owner signature next ihs ihn =>
    exact (ihs.settle hlenient hstrict owner).wrapped.bind ihn

theorem mirrors_classDecl (id : ClassId) (stub : ClassStub) :
    Mirrors LoadError.StemsFrom (classDecl lenient resolve id stub)
      (classDecl strict resolve' id stub) := by
  refine Mirrors.of_wrapped ?_
  rw [Script.run_classDecl, Script.run_classDecl]
  refine Mirrors.bind ?_ fun declaring => mirrors_run hlenient hstrict hresolve _ _
  cases stub.declaring with
  | none => exact mirrors_of_quiet fun _ => rfl
  | some name =>
    rw [Option.mapM_some, Option.mapM_some, ← wrapped_resolve, ← wrapped_resolve,
      map_eq_pure_bind, map_eq_pure_bind]
    exact (hresolve name).wrapped.bind fun id => mirrors_of_quiet fun _ => rfl

theorem mirrors_loadWith (source : Source) (name : String) :
    Mirrors LoadError.StemsFrom (loadWith source lenient resolve name)
      (loadWith source strict resolve' name) := by
  have hstub : Mirrors LoadError.StemsFrom (loadWith.loadStub source lenient resolve name)
      (loadWith.loadStub source strict resolve' name) := by
    unfold loadWith.loadStub
    cases source name with
    | none => exact mirrors_of_quiet fun _ => rfl
    | some stub =>
      have hintern : Mirrors LoadError.StemsFrom (intern name) (intern name) :=
        mirrors_of_quiet fun _ => rfl
      refine hintern.bind fun id => ?_
      refine ((mirrors_classDecl hlenient hstrict hresolve id stub).progressing name).bind
        fun decl => ?_
      exact mirrors_of_quiet fun _ => rfl
  have hget : Mirrors LoadError.StemsFrom (get : Load LoadError State) get :=
    mirrors_of_quiet fun _ => rfl
  refine hget.bind fun st => ?_
  cases st.store.lookup? name with
  | none => exact hstub
  | some id =>
    change Mirrors LoadError.StemsFrom (if _ then _ else _) (if _ then _ else _)
    split
    · exact mirrors_of_quiet fun _ => rfl
    · exact hstub

omit hresolve

theorem mirrors_loadWithin (source : Source) (levels : Nat) (name : String) :
    Mirrors LoadError.StemsFrom (loadWithin source lenient levels name)
      (loadWithin source strict levels name) := by
  induction levels generalizing name with
  | zero =>
    exact mirrors_loadWith hlenient hstrict (fun _ => mirrors_of_quiet fun _ => rfl) source name
  | succ levels ih =>
    exact mirrors_loadWith hlenient hstrict (fun n => Mirrors.orIntern ih n) source name

end Configs

/-- The computation fails for nothing else. -/
def FailsWith (Q : ε → Prop) (m : Load ε α) : Prop := ∀ st e, (m st).1 = .error e → Q e

section FailsWith

variable {Q : ε → Prop} {m : Load ε α}

theorem failsWith_of_ok (h : ∀ st, ∃ a, (m st).1 = .ok a) : FailsWith Q m := by
  intro st e he
  obtain ⟨a, ha⟩ := h st
  rw [ha] at he
  cases he

theorem failsWith_throw {e : ε} (h : Q e) : FailsWith Q (throw e : Load ε α) := by
  intro st e' he
  obtain rfl : e = e' := Except.error.inj he
  exact h

theorem FailsWith.bind {f : α → Load ε β} (h : FailsWith Q m) (hf : ∀ a, FailsWith Q (f a)) :
    FailsWith Q (m >>= f) := by
  intro st e he
  cases hm : (m st).1 with
  | ok a => exact hf a (m st).2 e (by rw [← he, Frame.bind_ok hm])
  | error e' =>
    rw [Frame.bind_error hm] at he
    obtain rfl := Except.error.inj he
    exact h st _ hm

theorem FailsWith.progressing (h : FailsWith Q m) (name : String) :
    FailsWith Q (progressing name m) :=
  fun st e he => h { st with inProgress := name :: st.inProgress } e he

end FailsWith

section Lenient

variable {Q : LoadError → Prop} {config : Config}

theorem failsWith_wrapped {m : Load LoadError α} :
    FailsWith (SignatureFault.Carries Q) (wrapped m) ↔ FailsWith Q m := by
  constructor
  · intro h st e he
    obtain ⟨e', he', hQ⟩ := h st (.reference e) (by rw [wrapped_apply, he]; rfl)
    obtain rfl := SignatureFault.reference.inj he'
    exact hQ
  · intro h st fault hfault
    rw [wrapped_apply] at hfault
    cases hm : (m st).1 with
    | ok a =>
      rw [hm] at hfault
      cases hfault
    | error e =>
      rw [hm] at hfault
      exact ⟨e, (Except.error.inj hfault).symm, h st e hm⟩

theorem failsWith_settle (hlenient : config.strict = false) (owner : String)
    (m : Load SignatureFault α) : FailsWith Q (settle config owner m) := by
  refine failsWith_of_ok fun st => ?_
  rcases hm : m st with ⟨fault | a, st'⟩
  · exact ⟨none, by simp [settle, hm, hlenient]⟩
  · exact ⟨some a, by simp only [settle, hm]⟩

variable (hlenient : config.strict = false) {resolve : Resolver}
  (hresolve : ∀ name, FailsWith Q (resolve name))
include hlenient hresolve

theorem failsWith_run (enclosing : Option ClassId) {p : Script α}
    (h : p.FailsOnly (SignatureFault.Carries Q)) :
    FailsWith (SignatureFault.Carries Q) (p.run resolve config enclosing) := by
  induction p with
  | done a => exact failsWith_of_ok fun _ => ⟨a, rfl⟩
  | fail fault => exact failsWith_throw h
  | askClass name next ih =>
    rw [Script.run, ← wrapped_resolve]
    exact (failsWith_wrapped.mpr (hresolve name)).bind fun id => ih id (h id)
  | askVariable symbol next ih =>
    have hstore : FailsWith (SignatureFault.Carries Q) getStore :=
      failsWith_of_ok fun st => ⟨st.store, rfl⟩
    exact hstore.bind fun s => ih _ (h _)
  | attempt owner signature next _ ih =>
    have hsettle := failsWith_settle (Q := Q) hlenient owner
      (signature.run resolve config enclosing)
    exact (failsWith_wrapped.mpr hsettle).bind fun b => ih b (h b)

theorem failsWith_classDecl (hdescriptor : ∀ owner invalid, Q (.malformedDescriptor owner invalid))
    (id : ClassId) (stub : ClassStub) : FailsWith Q (classDecl config resolve id stub) := by
  refine failsWith_wrapped.mp ?_
  rw [Script.run_classDecl]
  refine FailsWith.bind ?_ fun declaring => ?_
  · cases stub.declaring with
    | none => exact failsWith_of_ok fun _ => ⟨none, rfl⟩
    | some name =>
      rw [Option.mapM_some, ← wrapped_resolve, map_eq_pure_bind]
      exact (failsWith_wrapped.mpr (hresolve name)).bind fun id =>
        failsWith_of_ok fun _ => ⟨some id, rfl⟩
  · exact failsWith_run hlenient hresolve _ (Script.failsOnly_classBody id declaring
      (fun _ _ _ _ => ⟨_, rfl, hdescriptor _ _⟩) fun _ _ _ _ => ⟨_, rfl, hdescriptor _ _⟩)

theorem failsWith_loadWith (hdescriptor : ∀ owner invalid, Q (.malformedDescriptor owner invalid))
    (hnotFound : ∀ name, Q (.notFound name)) (source : Source) (name : String) :
    FailsWith Q (loadWith source config resolve name) := by
  have hstub : FailsWith Q (loadWith.loadStub source config resolve name) := by
    unfold loadWith.loadStub
    cases source name with
    | none => exact failsWith_throw (hnotFound name)
    | some stub =>
      have hintern : FailsWith Q (intern name) := failsWith_of_ok fun _ => ⟨_, rfl⟩
      refine hintern.bind fun id => ?_
      refine ((failsWith_classDecl hlenient hresolve hdescriptor id stub).progressing name).bind
        fun decl => ?_
      exact failsWith_of_ok fun _ => ⟨id, rfl⟩
  have hget : FailsWith Q (get : Load LoadError State) := failsWith_of_ok fun st => ⟨st, rfl⟩
  refine hget.bind fun st => ?_
  cases st.store.lookup? name with
  | none => exact hstub
  | some id =>
    change FailsWith Q (if _ then _ else _)
    split
    · exact failsWith_of_ok fun _ => ⟨id, rfl⟩
    · exact hstub

end Lenient

theorem FailsWith.orIntern {Q : LoadError → Prop} {load : Resolver}
    (h : ∀ name, FailsWith Q (load name)) (name : String) : FailsWith Q (orIntern load name) := by
  intro st e he
  rcases hm : load name st with ⟨e' | id, st'⟩
  · cases e' with
    | notFound n =>
      simp only [Loader.orIntern, hm] at he
      cases he
    | malformedSignature _ _ | malformedDescriptor _ _ =>
      simp only [Loader.orIntern, hm] at he
      obtain rfl := Except.error.inj he
      exact h name st _ (by rw [hm])
  · simp only [Loader.orIntern, hm] at he
    cases he

theorem failsWith_loadWithin {config : Config} (hlenient : config.strict = false) (source : Source)
    (levels : Nat) (name : String) :
    FailsWith LoadError.OutsideSignatures (loadWithin source config levels name) := by
  have hdescriptor : ∀ owner invalid,
      (LoadError.malformedDescriptor owner invalid).OutsideSignatures := by
    intro owner invalid owner' fault h
    cases h
  have hnotFound : ∀ name, (LoadError.notFound name).OutsideSignatures := by
    intro name owner fault h
    cases h
  induction levels generalizing name with
  | zero =>
    exact failsWith_loadWith hlenient (fun _ => failsWith_of_ok fun _ => ⟨_, rfl⟩) hdescriptor
      hnotFound source name
  | succ levels ih =>
    exact failsWith_loadWith hlenient (fun n => FailsWith.orIntern ih n) hdescriptor hnotFound
      source name

/-- The strict load does what the lenient one does if that comes to no signature whose conversion
faults. Otherwise it fails for the first of them, at whatever nesting that is. -/
theorem strict_fails_at_first_drop (source : Source) (config : Config) (name : String)
    (st : State) :
    let lenient := load source { config with strict := false } name st
    let strict := load source { config with strict := true } name st
    (∃ drops, lenient.2.dropped = st.dropped ++ drops ∧
      (∀ drop, drop ∈ drops ↔
        Drops source { config with strict := false } (config.maxDepth - 1) name st drop) ∧
      (drops = [] → strict = lenient) ∧
      ∀ drop rest, drops = drop :: rest → ∃ owner fault,
        strict.1 = .error (.malformedSignature owner fault) ∧
        (LoadError.malformedSignature owner fault).StemsFrom drop) ∧
    ∀ owner fault, lenient.1 ≠ .error (.malformedSignature owner fault) := by
  intro lenient strict
  refine ⟨?_, ?_⟩
  · obtain ⟨drops, hdropped, hdrops⟩ :
        Notes (load source { config with strict := false } name) st
          (Drops source { config with strict := false } (config.maxDepth - 1) name st) :=
      notes_loadWithin rfl (config.maxDepth - 1) name st
    refine ⟨drops, hdropped, hdrops, ?_⟩
    have hmirrors : MirrorsAt LoadError.StemsFrom (load source { config with strict := false } name)
        (load source { config with strict := true } name) st :=
      mirrors_loadWithin rfl rfl source (config.maxDepth - 1) name st
    cases hmirrors with
    | same hnone heq =>
      obtain rfl : drops = [] := List.append_right_eq_self.mp (hdropped.symm.trans hnone)
      exact ⟨fun _ => heq, by simp⟩
    | fails drop rest e hsome herror hstems =>
      obtain rfl := List.append_cancel_left (hdropped.symm.trans hsome)
      refine ⟨by simp, ?_⟩
      intro drop' rest' heq
      obtain ⟨rfl, rfl⟩ := List.cons.inj heq
      obtain ⟨owner, fault, rfl⟩ := hstems.exists_owner
      exact ⟨owner, fault, herror, hstems⟩
  · intro owner fault herror
    have hfails : FailsWith LoadError.OutsideSignatures
        (load source { config with strict := false } name) :=
      failsWith_loadWithin rfl source (config.maxDepth - 1) name
    exact hfails st _ herror owner fault rfl

section Table

/-- `p.Table` has a field of the class `p.Row`, and that has one whose signature is a type variable
which nobody declares. -/
def tableStubs : List ClassStub :=
  [{ bareStub "p.Table" with fields := [⟨"row", "Lp/Row;", some "Lp/Row;", .empty, []⟩] },
    { bareStub "p.Row" with fields := [⟨"cell", "Ljava/lang/Object;", some "TT;", .empty, []⟩] }]

def Drop.message (drop : Drop) : String := (LoadError.malformedSignature drop.1 drop.2).message

theorem dropped_table :
    (load (ofStubs tableStubs) {} "p.Table" { store := .initial }).2.dropped.map Drop.message =
      ["malformed signature on `p.Row.cell`: type variable `T` is not declared in scope"] := by
  decide +kernel

/-- The signature that faults is that of a class loaded on the way, and the strict load fails for
it. -/
theorem strict_fails_on_table :
    let source := ofStubs tableStubs
    let st : State := { store := .initial }
    (load source {} "p.Table" st).1.toOption = some ⟨14⟩ ∧
    ∃ drop, Drops source {} 63 "p.Table" st drop ∧
      drop.message =
        "malformed signature on `p.Row.cell`: type variable `T` is not declared in scope" ∧
      ∃ owner fault,
        (load source { strict := true } "p.Table" st).1 = .error (.malformedSignature owner fault) ∧
        (LoadError.malformedSignature owner fault).StemsFrom drop := by
  intro source st
  obtain ⟨⟨drops, hdropped, hdrops, _, hfails⟩, _⟩ :=
    strict_fails_at_first_drop source {} "p.Table" st
  have hmessages := dropped_table
  have hall : (load source {} "p.Table" st).2.dropped = drops := hdropped
  rw [hall] at hmessages
  obtain ⟨drop, rfl, hmessage⟩ := List.map_eq_singleton_iff.mp hmessages
  exact ⟨by decide +kernel, drop, (hdrops drop).mp (by simp), hmessage, hfails drop [] rfl⟩

end Table

end Loader

end JvmTypes
