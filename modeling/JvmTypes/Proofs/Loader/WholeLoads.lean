import JvmTypes.Proofs.Loader.Definitions
import JvmTypes.Proofs.Loader.Surroundings
/-!
# Classes that are loaded whole

A lenient loader goes on without a signature that it cannot use. A conversion that uses all
signatures of a class is one that would end well also if it had to: then the class is declared as
its signatures say.
-/
namespace JvmTypes.Loader

open Signature

namespace Script

variable {α β : Type}

/-- The script that ends where a signature cannot be used. -/
def sure : {α : Type} → Script α → Script α
  | _, .done a => .done a
  | _, .fail fault => .fail fault
  | _, .askClass name next => .askClass name fun id => (next id).sure
  | _, .askVariable symbol next => .askVariable symbol fun v => (next v).sure
  | _, .attempt _ signature next => signature >>= fun b => (next (some b)).sure

@[simp] theorem sure_pure (a : α) : (pure a : Script α).sure = pure a := rfl

@[simp] theorem sure_bind (p : Script α) (f : α → Script β) :
    (p >>= f).sure = p.sure >>= fun a => (f a).sure := by
  induction p with
  | done a => rfl
  | fail fault => rfl
  | askClass name next ih => simp only [askClass_bind, sure, ih]
  | askVariable symbol next ih => simp only [askVariable_bind, sure, ih]
  | attempt owner signature next _ ih => simp only [attempt_bind, sure, ih, bind_assoc]

@[simp] theorem sure_mapM (f : α → Script β) (xs : List α) :
    (xs.mapM f).sure = xs.mapM fun x => (f x).sure := by
  induction xs with
  | nil => rw [List.mapM_nil, List.mapM_nil, sure_pure]
  | cons x xs ih => simp only [List.mapM_cons, sure_bind, sure_pure, ih]

theorem Ends.of_sure {A : Answers} {p : Script α} {a : α} (h : p.sure.Ends A (some a)) :
    p.Ends A (some a) := by
  induction p with
  | done b => exact h
  | fail fault => exact h
  | askClass name next ih =>
    rcases h with ⟨id, hid, h⟩ | ⟨_, h⟩
    · exact Or.inl ⟨id, hid, ih id h⟩
    · cases h
  | askVariable symbol next ih =>
    obtain ⟨v, hv, h⟩ := h
    exact ⟨v, hv, ih v h⟩
  | attempt owner signature next _ ih =>
    obtain ⟨b, hb, h⟩ := ends_bind_some.mp h
    exact Or.inl ⟨some b, hb, ih (some b) h⟩

/-- A strict run that ends well is also the run of a lenient loader, and it used all signatures. -/
theorem run_of_strict {resolve : Resolver} {strict : Config} (hstrict : strict.strict = true)
    (config : Config) {enclosing : Option ClassId} {p : Script α} {st st' : State} {a : α}
    (h : p.run resolve strict enclosing st = (.ok a, st')) :
    p.run resolve config enclosing st = (.ok a, st') ∧
      p.sure.run resolve config enclosing st = (.ok a, st') := by
  induction p generalizing st st' with
  | done b => exact ⟨h, h⟩
  | fail fault =>
    cases (Prod.mk.inj h).1
  | askClass name next ih =>
    rw [sure, run, run]
    rw [run] at h
    cases hid : (referenced resolve name st).1 with
    | ok id =>
      rw [Frame.bind_ok hid] at h ⊢
      rw [Frame.bind_ok hid]
      exact ih id h
    | error e =>
      rw [Frame.bind_error hid] at h
      cases (Prod.mk.inj h).1
  | askVariable symbol next ih => exact ih _ h
  | attempt owner signature next ihs ihn =>
    rw [run] at h
    rcases hm : signature.run resolve strict enclosing st with ⟨fault | b, st₁⟩
    · have hfails : (wrapped (settle strict owner (signature.run resolve strict enclosing)) st).1 =
          .error (.reference (.malformedSignature owner fault)) := by
        simp only [wrapped, settle, hm, hstrict, if_true]
      rw [Frame.bind_error hfails] at h
      cases (Prod.mk.inj h).1
    · have hused : wrapped (settle strict owner (signature.run resolve strict enclosing)) st =
          (.ok (some b), st₁) := by
        simp only [wrapped, settle, hm]
      rw [Frame.bind_ok (a := some b) (by rw [hused]), hused] at h
      have hsignature := (ihs hm).1
      have hused' : wrapped (settle config owner (signature.run resolve config enclosing)) st =
          (.ok (some b), st₁) := by
        simp only [wrapped, settle, hsignature]
      rw [sure, run, run_bind, Frame.bind_ok (a := some b) (by rw [hused']), hused',
        Frame.bind_ok (a := b) (by rw [hsignature]), hsignature]
      exact ihn (some b) h

theorem run_classDecl_of_strict {resolve : Resolver} {config : Config} {id : ClassId}
    {stub : ClassStub} {st st' : State} {decl : ClassDecl}
    (h : Loader.classDecl { config with strict := true } resolve id stub st = (.ok decl, st')) :
    Loader.classDecl config resolve id stub st = (.ok decl, st') ∧
      (do
        let declaring ← stub.declaring.mapM (referenced resolve)
        (classBody id declaring stub).sure.run resolve config
          (if stub.flags.isStatic then none else declaring) : Load SignatureFault ClassDecl) st =
        (.ok decl, st') := by
  have hstrict := congrFun (run_classDecl resolve { config with strict := true } id stub) st
  have hlenient := congrFun (run_classDecl resolve config id stub) st
  rw [wrapped_apply, h] at hstrict
  rw [wrapped_apply] at hlenient
  cases hd : (stub.declaring.mapM (referenced resolve) st).1 with
  | error e =>
    rw [Frame.bind_error hd] at hstrict
    cases (Prod.mk.inj hstrict).1
  | ok declaring =>
    rw [Frame.bind_ok hd] at hstrict hlenient ⊢
    obtain ⟨hrun, hsure⟩ := run_of_strict rfl config hstrict.symm
    rw [hrun] at hlenient
    refine ⟨?_, hsure⟩
    obtain ⟨hresult, hstate⟩ := Prod.mk.inj hlenient
    rcases hm : Loader.classDecl config resolve id stub st with ⟨e | decl', st₁⟩
    · rw [hm] at hresult
      cases hresult
    · rw [hm] at hresult hstate
      obtain rfl := Except.ok.inj hresult
      exact Prod.ext rfl hstate

section Ends

variable {A : Answers} {sur : Surroundings} {text : String}

theorem ends_sure_fromSignature {parse : String → Except Signature.Invalid τ}
    {script : τ → Script α} {owner : String} {found : Option α}
    (h : (fromSignature owner (some text) (converted parse script)).sure.Ends A (some found)) :
    ∃ tree a, parse text = .ok tree ∧ (script tree).Ends A (some a) ∧ found = some a := by
  obtain ⟨a, ha, hfound⟩ := ends_bind_some.mp h
  obtain ⟨tree, hparse, hend⟩ := ends_converted ha
  exact ⟨tree, a, hparse, hend, Option.some.inj hfound⟩

theorem ends_sure_header {stub : ClassStub} {hd : Header} (htext : stub.signature = some text)
    (h : (header sur stub).sure.Ends A (some hd)) :
    ∃ sig, ClassSignature.parse text = .ok sig ∧
      (headerOf sur stub.flags.isInterface sig).Ends A (some hd) := by
  simp only [header, htext, sure_bind, ends_bind_some] at h
  obtain ⟨found, hfound, h⟩ := h
  obtain ⟨sig, hd', hparse, hend, rfl⟩ := ends_sure_fromSignature hfound
  obtain rfl := Option.some.inj h
  exact ⟨sig, hparse, hend⟩

theorem ends_sure_methodDecl {className : String} {stub : MethodStub} {d : MethodDecl}
    (htext : stub.signature = some text)
    (h : (methodDecl sur className stub).sure.Ends A (some d)) :
    ∃ descriptor sig types exceptions, MethodSignature.parse text = .ok sig ∧
      (methodTypesOf sur descriptor sig).Ends A (some types) ∧
      (exceptionTypes stub types).Ends A (some exceptions) ∧
      d = methodDeclWith stub types exceptions := by
  unfold methodDecl at h
  cases ht : stub.type with
  | error invalid => simp [ht, sure] at h
  | ok descriptor =>
    simp only [ht, htext, sure_bind, sure_pure, ends_bind_some, ends_pure, Option.some.injEq] at h
    obtain ⟨found, hfound, types, htypes, exceptions, hexceptions, rfl⟩ := h
    obtain ⟨sig, types', hparse, hend, rfl⟩ := ends_sure_fromSignature hfound
    obtain rfl := Option.some.inj htypes
    exact ⟨descriptor, sig, types, exceptions, hparse, hend, hexceptions.of_sure, rfl⟩

end Ends

end Script

/-- The class at `id` is declared as the stub says, and all signatures of the stub are used. -/
structure DeclaredWhole (s : Store) (stub : ClassStub) (id : ClassId) : Prop where
  name : stub.name = s.name id
  ends : (Script.classDecl id stub).sure.Ends (possibly s (s.get id).enclosing) (some (s.get id))

namespace DeclaredWhole

variable {s t : Store} {stub : ClassStub} {id : ClassId}

theorem mono (h : DeclaredWhole s stub id) (hs : s.Sound) (hgrows : s.Grows t)
    (hdefined : (s.get id).isPlaceholder = false) : DeclaredWhole t stub id := by
  have hget := hgrows.get_eq id hdefined
  refine ⟨?_, ?_⟩
  · rw [Store.name, hget]
    exact h.name
  · rw [hget]
    exact h.ends.mono (possibly_le hs hgrows _)

theorem body (h : DeclaredWhole s stub id) :
    ∃ declaring hd, (if stub.flags.isStatic then none else declaring) = (s.get id).enclosing ∧
      (Script.header
        { declaring := id, enclosing := if stub.flags.isStatic then none else declaring }
        stub).sure.Ends (possibly s (s.get id).enclosing) (some hd) ∧
      List.Forall₂ (fun m d => (Script.methodDecl hd.surroundings stub.name m).sure.Ends
        (possibly s (s.get id).enclosing) (some d)) stub.methods (s.get id).methods ∧
      (s.get id).typeVariables = hd.typeVariables ∧ (s.get id).superclass = hd.superclass ∧
      (s.get id).interfaces = hd.interfaces ∧ (s.get id).flags = stub.flags := by
  have hbody : ∃ declaring, (Script.classBody id declaring stub).sure.Ends
      (possibly s (s.get id).enclosing) (some (s.get id)) := by
    have hends := h.ends
    unfold Script.classDecl at hends
    split at hends
    · exact ⟨none, hends⟩
    · rcases hends with ⟨d, _, hbody⟩ | ⟨_, hnone⟩
      · exact ⟨some d, hbody⟩
      · cases hnone
  obtain ⟨declaring, hbody⟩ := hbody
  have henclosing : (if stub.flags.isStatic then none else declaring) = (s.get id).enclosing := by
    obtain ⟨_, _, _, _, _, hflags, hdecl, _⟩ := Script.ends_classBody hbody.of_sure
    rw [ClassDecl.enclosing, hflags, hdecl]
  simp only [Script.classBody, Script.sure_bind, Script.sure_mapM, Script.sure_pure,
    Script.ends_bind_some, Script.ends_mapM_some, Script.ends_pure, Option.some.injEq] at hbody
  obtain ⟨hd, hhd, fs, _, ms, hms, hdecl⟩ := hbody
  refine ⟨declaring, hd, henclosing, hhd, ?_⟩
  generalize s.get id = c at hdecl hms ⊢
  subst hdecl
  exact ⟨hms, rfl, rfl, rfl, rfl⟩

theorem header (h : DeclaredWhole s stub id) {text : String} (htext : stub.signature = some text) :
    ∃ sig hd, ClassSignature.parse text = .ok sig ∧
      (Script.headerOf { declaring := id, enclosing := (s.get id).enclosing } stub.flags.isInterface
        sig).Ends (known s (s.get id).enclosing) (some hd) ∧
      (s.get id).typeVariables = hd.typeVariables ∧ (s.get id).superclass = hd.superclass ∧
      (s.get id).interfaces = hd.interfaces := by
  obtain ⟨declaring, hd, henclosing, hhd, _, hvars, hsuper, hinterfaces, _⟩ := h.body
  rw [henclosing] at hhd
  obtain ⟨sig, hparse, hend⟩ := Script.ends_sure_header htext hhd
  exact ⟨sig, hd, hparse, Script.known_of_headerOf hend, hvars, hsuper, hinterfaces⟩

theorem methods (h : DeclaredWhole s stub id) :
    List.Forall₂ (fun m d => ∀ text, m.signature = some text →
      ∃ descriptor sig types exceptions, MethodSignature.parse text = .ok sig ∧
        (Script.methodTypesOf (surroundings s id) descriptor sig).Ends
          (known s (s.get id).enclosing) (some types) ∧
        (Script.exceptionTypes m types).Ends (possibly s (s.get id).enclosing) (some exceptions) ∧
        d = Script.methodDeclWith m types exceptions)
      stub.methods (s.get id).methods := by
  obtain ⟨declaring, hd, henclosing, hhd, hmethods, hvars, _⟩ := h.body
  have hsur : hd.surroundings = surroundings s id := by
    rw [Script.surroundings_of_header (definite_possibly s _) hhd.of_sure, ← hvars, henclosing]
    rfl
  rw [hsur] at hmethods
  refine hmethods.imp fun m d hend text htext => ?_
  obtain ⟨descriptor, sig, types, exceptions, hparse, htypes, hrest⟩ :=
    Script.ends_sure_methodDecl htext hend
  exact ⟨descriptor, sig, types, exceptions, hparse, Script.known_of_methodTypesOf htypes, hrest⟩

end DeclaredWhole

/-! ### What is loaded stays -/

namespace Frame

variable {F : Frame} {st : State}

theorem le_bind {m : Load ε α} {f : α → Load ε β}
    (hf : ∀ a, (m st).1 = .ok a → F.le (m st).2 (f a (m st).2).2) :
    F.le (m st).2 ((m >>= f) st).2 := by
  cases hm : (m st).1 with
  | ok a =>
    rw [bind_ok hm]
    exact hf a hm
  | error e =>
    rw [bind_error hm]
    exact F.refl _

theorem le_settle (config : Config) (owner : String) {m : Load SignatureFault α}
    (hinv : F.inv (m st).2) : F.le (m st).2 (settle config owner m st).2 := by
  rcases hm : m st with ⟨fault | a, st'⟩
  · rw [hm] at hinv
    cases hc : config.strict with
    | true =>
      simp only [settle, hm, hc, if_true]
      exact F.refl _
    | false =>
      simp only [settle, hm, hc, Bool.false_eq_true, if_false]
      exact (F.drop _ hinv).2
  · simp only [settle, hm]
    exact F.refl _

variable {resolve : Resolver} {config : Config} (hresolve : F.Encloses resolve)
include hresolve

theorem le_of_comes {enclosing : Option ClassId} {p : Script α} {st' : State} {n : String}
    (hst : F.inv st) (h : p.Comes resolve config enclosing st' (.asks n) st) :
    F.le (resolve n st').2 (p.run resolve config enclosing st).2 := by
  induction p generalizing st with
  | done a => exact h.elim
  | fail fault => exact h.elim
  | askClass name next ih =>
    rw [Script.run, ← wrapped_resolve]
    have hstate : (wrapped (resolve name) st).2 = (resolve name st).2 := by rw [wrapped_apply]
    rcases h with ⟨rfl, hn⟩ | ⟨id, hid, h⟩
    · obtain rfl := Event.asks.inj hn
      rw [← hstate]
      refine le_bind fun id _ => ?_
      rw [hstate]
      exact (steps_script hresolve enclosing (next id) (hresolve n st' hst).1).2
    · rw [bind_ok (a := id) (by rw [wrapped_apply, hid]; rfl), hstate]
      exact ih id (hresolve name st hst).1 h
  | askVariable symbol next ih =>
    rcases h with ⟨_, _, _, hn⟩ | h
    · cases hn
    · exact ih _ hst h
  | attempt owner signature next ihs ihn =>
    rw [Script.run]
    have hstate : (wrapped (settle config owner (signature.run resolve config enclosing)) st).2 =
        (settle config owner (signature.run resolve config enclosing) st).2 := by rw [wrapped_apply]
    have hsettled : F.inv
        (settle config owner (signature.run resolve config enclosing) st).2 :=
      (steps_settle hresolve owner enclosing signature hst).1
    rcases h with h | ⟨b, hb, h⟩
    · refine F.trans (F.trans (ihs hst h)
        (le_settle config owner (steps_script hresolve enclosing signature hst).1)) ?_
      rw [← hstate]
      refine le_bind fun b _ => ?_
      rw [hstate]
      exact (steps_script hresolve enclosing (next b) hsettled).2
    · rw [bind_ok (a := b) (by rw [wrapped_apply, hb]; rfl), hstate]
      exact ihn b hsettled h

theorem le_of_classComes {id : ClassId} {stub : ClassStub} {st' : State} {n : String}
    (hst : F.inv st) (h : Script.ClassComes resolve config id stub st' (.asks n) st) :
    F.le (resolve n st').2 (classDecl config resolve id stub st).2 := by
  have hrun := congrFun (Script.run_classDecl resolve config id stub) st
  rw [wrapped_apply] at hrun
  change F.le _ (Except.mapError SignatureFault.reference (classDecl config resolve id stub st).1,
    (classDecl config resolve id stub st).2).2
  rw [hrun]
  unfold Script.ClassComes at h
  cases hd : stub.declaring with
  | none =>
    rw [hd] at h
    rw [Option.mapM_none, pure_bind, ite_self]
    exact le_of_comes hresolve hst h
  | some outer =>
    rw [hd] at h
    rw [Option.mapM_some, map_eq_pure_bind, bind_assoc, ← wrapped_resolve]
    have hresolved : (wrapped (resolve outer) st).2 = (resolve outer st).2 := by rw [wrapped_apply]
    rcases h with ⟨rfl, hn⟩ | ⟨d, hok, h⟩
    · obtain rfl := Event.asks.inj hn
      rw [← hresolved]
      refine le_bind fun d _ => ?_
      rw [hresolved, pure_bind]
      exact (steps_script hresolve _ _ (hresolve n st' hst).1).2
    · rw [bind_ok (a := d) (by rw [wrapped_apply, hok]; rfl), hresolved, pure_bind]
      exact le_of_comes hresolve (hresolve outer st hst).1 h

end Frame

section Loads

variable {source : Source} {config : Config} (hsource : Faithful source)
include hsource

theorem runs_sure {levels : Nat} {stack : List String} {name : String} {st : State}
    {stub : ClassStub} {id : ClassId} (hdepth : config.maxDepth ≤ (name :: stack).length + levels)
    (hst : (steady source config).Holds (name :: stack) st) (hstub : source name = some stub)
    (hid : st.store.lookup? name = some id) :
    ((steady source config).frame (name :: stack)).Runs
      (do
        let declaring ← stub.declaring.mapM (referenced (Regime.mentioned source config levels))
        (Script.classBody id declaring stub).sure.run (Regime.mentioned source config levels) config
          (if stub.flags.isStatic then none else declaring) : Load SignatureFault ClassDecl) st
      (fun decl st' => ∃ declaring, declaring = stub.declaring.bind st'.store.lookup? ∧
        (stub.declaring.isSome → declaring.isSome) ∧
        (Script.classBody id declaring stub).sure.Ends
          (possibly st'.store (if stub.flags.isStatic then none else declaring)) (some decl))
      fun _ _ => True := by
  have hR := sustained_steady source config
  have hresolves := Regime.resolves_mentioned hR hsource hdepth
  refine ((Regime.runs_declaring hR hresolves hst hstub hid).imp (fun _ _ _ _ h => h)
    fun _ _ _ _ _ => trivial).bind ?_
  rintro declaring st₁ hst₁ _ ⟨hdeclaring, hsome, _⟩
  have hacc : ∀ st' : State, Frame.Accounting
      (possibly st'.store (if stub.flags.isStatic then none else declaring)).faulty
      fun _ _ _ => True := fun _ =>
    ⟨fun _ => trivial, fun _ _ _ _ _ _ _ _ => trivial, fun _ _ _ _ => trivial⟩
  have hserves : ((steady source config).frame (name :: stack)).Serves
      (fun st' => possibly st'.store (if stub.flags.isStatic then none else declaring))
      (fun _ _ => True) (if stub.flags.isStatic then none else declaring)
      (Script.classBody id declaring stub).sure st₁ :=
    ⟨fun st₂ _ hst₂ _ _ hle => possibly_le hst₂.sound hle _, fun _ _ _ _ _ => trivial,
      fun _ _ _ _ _ => Or.inr rfl⟩
  refine (Frame.runs_script hacc ?_ (fun _ _ => trivial) _ hst₁ hserves).imp ?_
    fun _ _ _ _ _ => trivial
  · exact fun n st' hst' _ => (hresolves n st' hst' trivial).imp (fun _ _ _ _ h => h)
      fun _ _ _ _ _ => trivial
  · rintro decl st₂ _ hle ⟨_, htrace, _⟩
    exact ⟨declaring, Regime.declaring_of_grows hle hdeclaring hsome, hsome, htrace.ends⟩

end Loads

/-- A load of a class, with so many levels left below it, converts the stub of the class `n`, and it
can do so also if it has to use all signatures of the stub: no one of them is dropped. -/
inductive LoadsWhole (source : Source) (config : Config) (n : String) (stub : ClassStub) :
    Nat → String → State → Prop
  | here {levels st decl st'} (h : Enters source st n stub)
      (hdecl : classDecl { config with strict := true } (Regime.mentioned source config levels)
        (st.store.intern n).1 stub (Regime.entered st n) = (.ok decl, st')) :
      LoadsWhole source config n stub levels n st
  | within {levels name st outer st₁ inner} (h : Enters source st name outer)
      (hcomes : Script.ClassComes (Regime.mentioned source config (levels + 1)) config
        (st.store.intern name).1 outer st₁ (.asks inner) (Regime.entered st name))
      (hinner : LoadsWhole source config n stub levels inner st₁) :
      LoadsWhole source config n stub (levels + 1) name st

theorem LoadsWhole.of_isSome {source : Source} {config : Config} {n : String} {stub : ClassStub}
    {levels : Nat} {st : State} (h : Enters source st n stub)
    (hends : (classDecl { config with strict := true } (Regime.mentioned source config levels)
      (st.store.intern n).1 stub (Regime.entered st n)).1.toOption.isSome) :
    LoadsWhole source config n stub levels n st := by
  rcases hm : classDecl { config with strict := true } (Regime.mentioned source config levels)
      (st.store.intern n).1 stub (Regime.entered st n) with ⟨e | decl, st'⟩
  · rw [hm] at hends
    cases hends
  · exact .here h hm

section Loads

variable {source : Source} {config : Config} (hsource : Faithful source)
include hsource

omit hsource in
theorem Enters.loadWithin_eq {name : String} {st : State} {stub : ClassStub}
    (h : Enters source st name stub) (config : Config) (levels : Nat) :
    loadWithin source config levels name st =
      match classDecl config (Regime.mentioned source config levels) (st.store.intern name).1 stub
        (Regime.entered st name) with
      | (.ok decl, st') =>
        (.ok (st.store.intern name).1, Regime.left st' name (st.store.intern name).1 decl)
      | (.error e, st') => (.error e, { st' with inProgress := st'.inProgress.erase name }) := by
  rw [Regime.loadWithin_eq, Regime.loadWith_of_undefined fun id hid =>
    ⟨h.new, h.fresh, h.undefined id hid⟩]
  exact Regime.loadStub_eq st h.stub

omit hsource in
theorem ends_sure_of_classBody {A : Answers} {declaring : Option ClassId} {s : Store} {id : ClassId}
    {stub : ClassStub} {r : Option ClassDecl} (hd : declaring = stub.declaring.bind s.lookup?)
    (hsome : stub.declaring.isSome → declaring.isSome)
    (hA : ∀ n i, s.lookup? n = some i → A.cls n i)
    (h : (Script.classBody id declaring stub).sure.Ends A r) :
    (Script.classDecl id stub).sure.Ends A r := by
  rcases Regime.declaring_cases hd hsome with ⟨ho, rfl⟩ | ⟨outer, d, ho, rfl, hlookup⟩
  · rw [Script.classDecl, ho]
    exact h
  · rw [Script.classDecl, ho]
    exact Or.inl ⟨d, hA outer d hlookup, h⟩

theorem declaredWhole_of_strict {levels : Nat} {stack : List String} {name : String} {st : State}
    {stub : ClassStub} {decl : ClassDecl} {st' : State}
    (hdepth : config.maxDepth ≤ stack.length + levels + 1)
    (hst : (steady source config).Holds stack st) (h : Enters source st name stub)
    (hdecl : classDecl { config with strict := true } (Regime.mentioned source config levels)
      (st.store.intern name).1 stub (Regime.entered st name) = (.ok decl, st')) :
    let s := (loadWithin source config levels name st).2.store
    ∃ id, s.lookup? name = some id ∧ (s.get id).isPlaceholder = false ∧
      DeclaredWhole s stub id := by
  intro s
  obtain ⟨hrun, hsure⟩ := Script.run_classDecl_of_strict hdecl
  obtain ⟨hinv, hle, declaring, hdeclaring, hsome, hbody⟩ :=
    (runs_sure hsource (Regime.depth_cons name levels hdepth)
      (h.holds (sustained_steady source config) hst) h.stub
      (Store.lookup?_intern st.store name)).eq_ok hsure
  obtain ⟨_, _, _, _, hname, hflags, hdecldecl, hdefined, _⟩ := Script.ends_classBody hbody.of_sure
  have henclosing : (if stub.flags.isStatic then none else declaring) = decl.enclosing := by
    rw [ClassDecl.enclosing, hflags, hdecldecl]
  have hload := h.loadWithin_eq config levels
  rw [hrun] at hload
  have hlookup : st'.store.lookup? name = some (st.store.intern name).1 :=
    Store.Grows.lookup? hle (Store.lookup?_intern st.store name)
  have hends : (Script.classDecl (st.store.intern name).1 stub).sure.Ends
      (possibly st'.store decl.enclosing) (some decl) :=
    ends_sure_of_classBody hdeclaring hsome (fun _ _ hid => hid) (henclosing ▸ hbody)
  have hs : s = st'.store.define (st.store.intern name).1 decl := by
    change (loadWithin source config levels name st).2.store = _
    rw [hload]
    rfl
  have hnameid : decl.name = st'.store.name (st.store.intern name).1 := by
    rw [hname, hsource name stub h.stub, Store.name_of_lookup? hlookup]
  have hgrows := Store.grows_define (hinv.isPlaceholder hlookup) hnameid
  have hget :
      (st'.store.define (st.store.intern name).1 decl).get (st.store.intern name).1 = decl :=
    Store.get_define_self (Store.index_lt_of_lookup? hlookup)
  rw [hs]
  refine ⟨_, hgrows.lookup? hlookup, by rw [hget, hdefined], ?_, ?_⟩
  · rw [Store.name, hget, hname]
  · rw [hget]
    exact hends.mono (possibly_le hinv.sound hgrows _)

theorem grows_of_entered {levels : Nat} {stack : List String} {name : String} {st : State}
    {stub : ClassStub} (hdepth : config.maxDepth ≤ stack.length + levels + 1)
    (hst : (steady source config).Holds stack st) (h : Enters source st name stub) :
    (classDecl config (Regime.mentioned source config levels) (st.store.intern name).1 stub
      (Regime.entered st name)).2.store.Grows
        (loadWithin source config levels name st).2.store := by
  have hR := sustained_steady source config
  have hencloses := encloses_mentioned hR hsource (Regime.depth_cons name levels hdepth)
  have hsteps := Frame.steps_classDecl hencloses config (st.store.intern name).1 stub
    (h.holds hR hst)
  rw [h.loadWithin_eq config levels]
  rcases hm : classDecl config (Regime.mentioned source config levels) (st.store.intern name).1 stub
    (Regime.entered st name) with ⟨e | decl, st'⟩
  · exact .refl _
  · rw [hm] at hsteps
    obtain ⟨hinv, hle⟩ := hsteps
    have hlookup : st'.store.lookup? name = some (st.store.intern name).1 :=
      Store.Grows.lookup? hle (Store.lookup?_intern st.store name)
    have hname : decl.name = stub.name := name_of_classDecl (by rw [hm])
    refine Store.grows_define (hinv.isPlaceholder hlookup) ?_
    rw [hname, hsource name stub h.stub, Store.name_of_lookup? hlookup]

omit hsource in
theorem grows_orIntern (load : Resolver) (name : String) (st : State) :
    (load name st).2.store.Grows (orIntern load name st).2.store := by
  rcases hm : load name st with ⟨(n | _ | _) | id, st'⟩ <;> simp only [orIntern, hm]
  · exact Store.grows_intern st'.store name
  · exact .refl _
  · exact .refl _
  · exact .refl _

/-- A class that is converted with all its signatures on the way is declared as they say. -/
theorem LoadsWhole.declaredWhole {n : String} {stub : ClassStub} {levels : Nat} {name : String}
    {st : State} (h : LoadsWhole source config n stub levels name st) {stack : List String}
    (hdepth : config.maxDepth ≤ stack.length + levels + 1)
    (hst : (steady source config).Holds stack st) :
    let s := (loadWithin source config levels name st).2.store
    ∃ id, s.lookup? n = some id ∧ (s.get id).isPlaceholder = false ∧ DeclaredWhole s stub id := by
  induction h generalizing stack with
  | here h hdecl => exact declaredWhole_of_strict hsource hdepth hst h hdecl
  | @within levels name st outer st₁ inner h hcomes _ ih =>
    intro s
    have hR := sustained_steady source config
    have hencloses := encloses_mentioned hR hsource (Regime.depth_cons name (levels + 1) hdepth)
    have hentered := h.holds hR hst
    have hasked := h.holds_of_comes hR hsource hst hdepth hcomes
    have hdepth' := Regime.depth_cons name (levels + 1) hdepth
    obtain ⟨id, hid, hdefined, hwhole⟩ := ih hdepth' hasked
    have hloads := Regime.loads_loadWithin hR hsource levels hdepth' inner st₁ hasked trivial
    have hsound := hloads.inv.sound
    have hgrows : (loadWithin source config levels inner st₁).2.store.Grows s :=
      ((grows_orIntern _ inner st₁).trans (Frame.le_of_classComes hencloses hentered hcomes)).trans
        (grows_of_entered hsource hdepth hst h)
    exact ⟨id, hgrows.lookup? hid, by rw [hgrows.get_eq id hdefined, hdefined],
      hwhole.mono hsound hgrows hdefined⟩

end Loads

end JvmTypes.Loader
