import JvmTypes.Proofs.Loader.Circles
import JvmTypes.Proofs.Loader.Enclosing
import JvmTypes.Proofs.Shape.Structure
/-!
# The limit of nesting

The depth that is allowed limits how many classes are in progress at once. A class that the source
knows is left out only where it is asked for with that many classes in progress. How far it is from
the class that was asked for first does not matter: a class that is converted at the limit is not
converted again, and what it mentions stays left out also where a shorter way leads to it.
-/
namespace JvmTypes

def ClassDecl.classes (c : ClassDecl) : List ClassId :=
  c.declaring.toList ++ (c.shapes ++ c.methods.flatMap MethodDecl.shapes).flatMap Shape.classes

/-- What the store has as the one class mentions the other. -/
def Store.Mentions (s : Store) (outer inner : String) : Prop :=
  ∃ i j, s.lookup? outer = some i ∧ s.lookup? inner = some j ∧ j ∈ (s.get i).classes

namespace Loader

/-- A load of a class, with so many levels left below it, asks in the state `st'` for the class `n`,
for itself or for one of the classes that are loaded for it. -/
inductive AsksFor (source : Source) (config : Config) : Nat → String → State → State → String → Prop
  | here {levels name st stub st' n} (h : Enters source st name stub)
      (hcomes : Script.ClassComes (Regime.mentioned source config levels) config
        (st.store.intern name).1 stub st' (.asks n) (Regime.entered st name)) :
      AsksFor source config levels name st st' n
  | within {levels name st stub st₁ inner st' n} (h : Enters source st name stub)
      (hcomes : Script.ClassComes (Regime.mentioned source config (levels + 1)) config
        (st.store.intern name).1 stub st₁ (.asks inner) (Regime.entered st name))
      (hinner : AsksFor source config levels inner st₁ st' n) :
      AsksFor source config (levels + 1) name st st' n

theorem AsksFor.passes {source : Source} {config : Config} {levels : Nat} {name n : String}
    {st st' : State} (h : AsksFor source config levels name st st' n) :
    Passes source config levels name st ⟨st', none⟩ := by
  induction h with
  | here h hcomes => exact .comes h hcomes
  | within h hcomes _ ih => exact .within h hcomes ih

section Change

/-! What holds after a conversion and not before it came about while a class was resolved. -/

variable {P : State → Prop} (hdrop : ∀ st dropped, P { st with dropped := dropped } ↔ P st)
  {resolve : Resolver} {config : Config} {st : State}
include hdrop

theorem settle_iff (owner : String) (conversion : Load SignatureFault α) :
    P (settle config owner conversion st).2 ↔ P (conversion st).2 := by
  rcases hm : conversion st with ⟨fault | a, st'⟩
  · cases hc : config.strict with
    | true => simp only [settle, hm, hc, if_true]
    | false =>
      simp only [settle, hm, hc, Bool.false_eq_true, if_false]
      exact hdrop st' _
  · simp only [settle, hm]

theorem exists_comes_of_change {enclosing : Option ClassId} {p : Script α} (hbefore : ¬ P st)
    (hafter : P (p.run resolve config enclosing st).2) :
    ∃ name st', p.Comes resolve config enclosing st' (.asks name) st ∧ ¬ P st' ∧
      P (resolve name st').2 := by
  induction p generalizing st with
  | done a => exact absurd hafter hbefore
  | fail fault => exact absurd hafter hbefore
  | askClass name next ih =>
    by_cases hresolved : P (resolve name st).2
    · exact ⟨name, st, Or.inl ⟨rfl, rfl⟩, hbefore, hresolved⟩
    · rw [Script.run, ← wrapped_resolve] at hafter
      cases hm : (resolve name st).1 with
      | ok id =>
        rw [Frame.bind_ok (a := id) (by rw [wrapped_apply, hm]; rfl), wrapped_apply] at hafter
        obtain ⟨n, st', hcomes, hchange⟩ := ih id hresolved hafter
        exact ⟨n, st', Or.inr ⟨id, hm, hcomes⟩, hchange⟩
      | error e =>
        rw [Frame.bind_error (e := .reference e) (by rw [wrapped_apply, hm]; rfl),
          wrapped_apply] at hafter
        exact absurd hafter hresolved
  | askVariable symbol next ih =>
    rw [Script.run, Frame.bind_ok (a := st.store) rfl] at hafter
    obtain ⟨n, st', hcomes, hchange⟩ := ih _ hbefore hafter
    exact ⟨n, st', Or.inr hcomes, hchange⟩
  | attempt owner signature next ihs ihn =>
    by_cases hsettled : P (settle config owner (signature.run resolve config enclosing) st).2
    · obtain ⟨n, st', hcomes, hchange⟩ := ihs hbefore ((settle_iff hdrop owner _).mp hsettled)
      exact ⟨n, st', Or.inl hcomes, hchange⟩
    · rw [Script.run] at hafter
      cases hm : (settle config owner (signature.run resolve config enclosing) st).1 with
      | ok b =>
        rw [Frame.bind_ok (a := b) (by rw [wrapped_apply, hm]; rfl), wrapped_apply] at hafter
        obtain ⟨n, st', hcomes, hchange⟩ := ihn b hsettled hafter
        exact ⟨n, st', Or.inr ⟨b, hm, hcomes⟩, hchange⟩
      | error e =>
        rw [Frame.bind_error (e := .reference e) (by rw [wrapped_apply, hm]; rfl),
          wrapped_apply] at hafter
        exact absurd hafter hsettled

theorem exists_classComes_of_change {id : ClassId} {stub : ClassStub} (hbefore : ¬ P st)
    (hafter : P (classDecl config resolve id stub st).2) :
    ∃ name st', Script.ClassComes resolve config id stub st' (.asks name) st ∧ ¬ P st' ∧
      P (resolve name st').2 := by
  have hrun := congrFun (Script.run_classDecl resolve config id stub) st
  rw [wrapped_apply] at hrun
  replace hafter : P ((do
      let declaring ← stub.declaring.mapM (referenced resolve)
      (Script.classBody id declaring stub).run resolve config
        (if stub.flags.isStatic then none else declaring)) st).2 := by
    rw [← hrun]
    exact hafter
  unfold Script.ClassComes
  cases hd : stub.declaring with
  | none =>
    rw [hd, Option.mapM_none, pure_bind, ite_self] at hafter
    exact exists_comes_of_change hdrop hbefore hafter
  | some outer =>
    by_cases hresolved : P (resolve outer st).2
    · exact ⟨outer, st, Or.inl ⟨rfl, rfl⟩, hbefore, hresolved⟩
    · rw [hd, Option.mapM_some, map_eq_pure_bind, bind_assoc, ← wrapped_resolve] at hafter
      cases hm : (resolve outer st).1 with
      | ok d =>
        rw [Frame.bind_ok (a := d) (by rw [wrapped_apply, hm]; rfl), wrapped_apply,
          pure_bind] at hafter
        obtain ⟨n, st', hcomes, hchange⟩ := exists_comes_of_change hdrop hresolved hafter
        exact ⟨n, st', Or.inr ⟨d, hm, hcomes⟩, hchange⟩
      | error e =>
        rw [Frame.bind_error (e := .reference e) (by rw [wrapped_apply, hm]; rfl),
          wrapped_apply] at hafter
        exact absurd hafter hresolved

end Change

/-- The store knows the class but does not define it, and nobody is about to define it. -/
def LeftOut (n : String) (st : State) : Prop :=
  ∃ id, st.store.lookup? n = some id ∧ (st.store.get id).isPlaceholder = true ∧ n ∉ st.inProgress

namespace LeftOut

variable {n name : String} {st : State}

theorem of_intern (hbefore : ¬ LeftOut n st)
    (hafter : LeftOut n { st with store := (st.store.intern name).2 }) : n = name := by
  obtain ⟨id, hid, hp, hfree⟩ := hafter
  rcases Store.lookup?_of_intern hid with rfl | hknown
  · rfl
  · have hsame := Store.get_intern (Store.index_lt_of_lookup? hknown) name
    exact absurd ⟨id, hknown, hsame ▸ hp, hfree⟩ hbefore

theorem not_entered (hbefore : ¬ LeftOut n st) : ¬ LeftOut n (Regime.entered st name) := by
  intro hafter
  obtain ⟨id, hid, hp, hfree⟩ := hafter
  obtain ⟨hne, hfree⟩ := not_or.mp (List.mem_cons.not.mp hfree)
  exact hne (of_intern hbefore ⟨id, hid, hp, hfree⟩)

theorem of_left {id : ClassId} {decl : ClassDecl} (hname : decl.name = st.store.name id)
    (hid : st.store.lookup? name = some id) (hdefined : decl.isPlaceholder = false)
    (h : LeftOut n (Regime.left st name id decl)) : LeftOut n st := by
  obtain ⟨i, hi, hp, hfree⟩ := h
  have hlookup : st.store.lookup? n = some i := by
    rw [← hi]
    exact (Store.lookup?_define hname n).symm
  have hother : i ≠ id := by
    rintro rfl
    change ((st.store.define i decl).get i).isPlaceholder = true at hp
    rw [Store.get_define_self (Store.index_lt_of_lookup? hid), hdefined] at hp
    cases hp
  have hne : n ≠ name := by
    rintro rfl
    exact hother (Option.some.inj (hlookup.symm.trans hid))
  refine ⟨i, hlookup, ?_, fun hmem => hfree ((List.mem_erase_of_ne hne).mpr hmem)⟩
  rw [← Store.get_define_ne hother]
  exact hp

end LeftOut

section Limit

variable {source : Source} {config : Config} (hsource : Faithful source)
  (hlenient : config.strict = false)
  (hreadable : ∀ name stub, source name = some stub → stub.Readable)
include hsource hlenient hreadable

theorem exists_asks_of_leftOut {levels : Nat} {stack : List String} {name n : String} {st : State}
    (hst : (unfailing source config).Holds stack st)
    (hdepth : config.maxDepth ≤ stack.length + levels + 1) (hbefore : ¬ LeftOut n st)
    (hafter : LeftOut n (loadWithin source config levels name st).2) :
    ∃ stub inner st', Enters source st name stub ∧
      Script.ClassComes (Regime.mentioned source config levels) config (st.store.intern name).1 stub
        st' (.asks inner) (Regime.entered st name) ∧
      (unfailing source config).Holds (name :: stack) st' ∧ ¬ LeftOut n st' ∧
      LeftOut n (Regime.mentioned source config levels inner st').2 := by
  have hR := sustained_unfailing hlenient hreadable
  rw [Regime.loadWithin_eq] at hafter
  rcases loadWith_cases hst (Regime.mentioned source config levels) name with
    ⟨id, _, hknown⟩ | ⟨_, _, hnone⟩ | ⟨stub, henters, hstub⟩
  · rw [hknown] at hafter
    exact absurd hafter hbefore
  · rw [hnone] at hafter
    exact absurd hafter hbefore
  · have hresolves : (unfailing source config).Resolves (name :: stack)
        (Regime.mentioned source config levels) :=
      Regime.resolves_mentioned hR hsource (Regime.depth_cons name levels hdepth)
    have hentered : (unfailing source config).Holds (name :: stack) (Regime.entered st name) :=
      hst.enter hR trivial henters.stub (hst.inProgress ▸ henters.fresh) henters.undefined
    have hconverted := Regime.runs_classDecl hR (hR.admits henters.stub stack) hresolves hentered
      henters.stub (Store.lookup?_intern st.store name)
    rw [hstub, Regime.loadStub_eq st henters.stub] at hafter
    rcases hm : classDecl config (Regime.mentioned source config levels) (st.store.intern name).1
      stub (Regime.entered st name) with ⟨e | decl, st₁⟩
    · exact (hconverted.eq_error hm).2.2.elim
    · obtain ⟨_, hle, names, htrace, _⟩ := hconverted.eq_ok hm
      obtain ⟨_, _, hbody⟩ := Script.ends_classDecl htrace.ends
      obtain ⟨_, _, _, _, hdeclname, _, _, hdefined, _⟩ := Script.ends_classBody hbody
      have hid : st₁.store.lookup? name = some (st.store.intern name).1 :=
        Store.Grows.lookup? hle (Store.lookup?_intern st.store name)
      have hname : decl.name = st₁.store.name (st.store.intern name).1 := by
        rw [hdeclname, hsource name stub henters.stub, Store.name_of_lookup? hid]
      rw [hm] at hafter
      have hleft : LeftOut n (classDecl config (Regime.mentioned source config levels)
          (st.store.intern name).1 stub (Regime.entered st name)).2 := by
        rw [hm]
        exact LeftOut.of_left hname hid hdefined hafter
      obtain ⟨inner, st', hcomes, hunchanged, hchanged⟩ :=
        exists_classComes_of_change (P := LeftOut n) (fun _ _ => Iff.rfl)
          (LeftOut.not_entered hbefore) hleft
      have hencloses : ((unfailing source config).frame (name :: stack)).Encloses
          (Regime.mentioned source config levels) := fun m st₂ hst₂ =>
        ⟨(hresolves m st₂ hst₂ trivial).inv, (hresolves m st₂ hst₂ trivial).le⟩
      exact ⟨stub, inner, st', henters, hcomes, Frame.inv_of_classComes hencloses hentered hcomes,
        hunchanged, hchanged⟩

/-- A class of the source that a load leaves out is asked for where no level is left, with all
levels taken by classes in progress. -/
theorem exists_asksFor_of_leftOut {n : String} (hn : (source n).isSome) (levels : Nat)
    {stack : List String} {name : String} {st : State}
    (hst : (unfailing source config).Holds stack st)
    (hdepth : config.maxDepth ≤ stack.length + levels + 1) (hbefore : ¬ LeftOut n st)
    (hafter : LeftOut n (loadWithin source config levels name st).2) :
    ∃ st', AsksFor source config levels name st st' n ∧
      st'.inProgress.length = stack.length + levels + 1 := by
  have hR := sustained_unfailing hlenient hreadable
  induction levels generalizing stack name st with
  | zero =>
    obtain ⟨stub, inner, st', henters, hcomes, hst', hunchanged, hchanged⟩ :=
      exists_asks_of_leftOut hsource hlenient hreadable hst hdepth hbefore hafter
    obtain rfl := LeftOut.of_intern hunchanged hchanged
    refine ⟨st', .here henters hcomes, ?_⟩
    rw [hst'.inProgress, List.length_cons]
  | succ levels ih =>
    obtain ⟨stub, inner, st', henters, hcomes, hst', hunchanged, hchanged⟩ :=
      exists_asks_of_leftOut hsource hlenient hreadable hst hdepth hbefore hafter
    have hdepth' : config.maxDepth ≤ (name :: stack).length + levels + 1 :=
      Regime.depth_cons name (levels + 1) hdepth
    have hload := Regime.loads_loadWithin hR hsource levels hdepth' inner st' hst' trivial
    rcases hm : loadWithin source config levels inner st' with ⟨e | id, st''⟩
    · obtain ⟨hst'', _, hfaulty | ⟨hnone, rfl, hstore⟩⟩ := hload.eq_error hm
      · exact hfaulty.elim
      · simp only [Regime.mentioned, orIntern, hm] at hchanged
        have hsame : ¬ LeftOut n st'' := by
          rintro ⟨i, hi, hp, hfree⟩
          rw [hstore] at hi hp
          rw [hst''.inProgress, ← hst'.inProgress] at hfree
          exact hunchanged ⟨i, hi, hp, hfree⟩
        obtain rfl := LeftOut.of_intern hsame hchanged
        rw [hnone] at hn
        cases hn
    · simp only [Regime.mentioned, orIntern, hm] at hchanged
      obtain ⟨st₃, hasks, hlength⟩ := ih hst' hdepth' hunchanged (by rw [hm]; exact hchanged)
      refine ⟨st₃, .within henters hcomes hasks, ?_⟩
      rw [hlength, List.length_cons]
      omega

theorem asksFor_of_leftOut {n : String} (hn : (source n).isSome) (levels : Nat)
    {stack : List String} {name : String} {st : State}
    (hst : (unfailing source config).Holds stack st)
    (hdepth : config.maxDepth = stack.length + levels + 1) (hbefore : ¬ LeftOut n st)
    (hafter : LeftOut n (loadWithin source config levels name st).2) :
    ∃ st', AsksFor source config levels name st st' n ∧
      st'.inProgress.length = config.maxDepth := by
  rw [hdepth]
  exact exists_asksFor_of_leftOut hsource hlenient hreadable hn levels hst hdepth.le hbefore hafter

end Limit

/-- Whatever mentions lead to a class that the source knows, it is defined, or it was asked for at
a moment at which as many classes were in progress as the depth allows. -/
theorem defined_or_asked_at_limit {source : Source} {config : Config} (hsource : Faithful source)
    (hreadable : ∀ name stub, source name = some stub → stub.Readable)
    (hlenient : config.strict = false) (hdepth : 1 ≤ config.maxDepth) {r : String} {id : ClassId}
    {st : State} (hload : load source config r { store := .initial } = (.ok id, st)) {n : String}
    (hchain : Relation.ReflTransGen st.store.Mentions r n) (hn : (source n).isSome) :
    (∃ i, st.store.lookup? n = some i ∧ (st.store.get i).isPlaceholder = false) ∨
    ∃ st', AsksFor source config (config.maxDepth - 1) r { store := .initial } st' n ∧
      st'.inProgress.length = config.maxDepth := by
  have hR := sustained_unfailing hlenient hreadable
  have hstart : (unfailing source config).Holds [] { store := .initial } :=
    ⟨rfl, .nil, Store.sound_initial, .refl _, by simp, by simp, trivial⟩
  obtain ⟨hend, _, hid, _, _⟩ := (Regime.loads_load hR hsource r _ hstart trivial).eq_ok hload
  have hknown : ∃ i, st.store.lookup? n = some i := by
    cases hchain with
    | refl => exact ⟨id, hid⟩
    | tail _ hmentions =>
      obtain ⟨_, j, _, hj, _⟩ := hmentions
      exact ⟨j, hj⟩
  obtain ⟨i, hi⟩ := hknown
  cases hp : (st.store.get i).isPlaceholder with
  | false => exact Or.inl ⟨i, hi, hp⟩
  | true =>
    have hbefore : ¬ LeftOut n { store := .initial } := by
      rintro ⟨j, hj, hplaceholder, _⟩
      rw [Store.defined_initial (Store.index_lt_of_lookup? hj)] at hplaceholder
      cases hplaceholder
    have hafter : LeftOut n (load source config r { store := .initial }).2 := by
      rw [hload]
      exact ⟨i, hi, hp, by rw [hend.inProgress]; exact List.not_mem_nil⟩
    refine Or.inr (asksFor_of_leftOut hsource hlenient hreadable hn _ hstart ?_ hbefore hafter)
    rw [List.length_nil]
    omega

section Shared

/-- `p.R` mentions `p.B` and `p.A`, `p.B` mentions `p.A` too, and `p.A` mentions `p.X`. -/
def sharedStubs : List ClassStub :=
  let mentioning (name : String) (fields : List (String × String)) : ClassStub :=
    { bareStub name with fields := fields.map fun (f, d) => ⟨f, d, none, .empty, []⟩ }
  [mentioning "p.R" [("b", "Lp/B;"), ("a", "Lp/A;")], mentioning "p.B" [("a", "Lp/A;")],
    mentioning "p.A" [("x", "Lp/X;")], mentioning "p.X" []]

def sharedState : State := (load (ofStubs sharedStubs) { maxDepth := 3 } "p.R"
  { store := .initial }).2

theorem load_shared : load (ofStubs sharedStubs) { maxDepth := 3 } "p.R" { store := .initial } =
    (.ok ⟨14⟩, sharedState) := by
  refine Prod.ext ?_ rfl
  have hok : (load (ofStubs sharedStubs) { maxDepth := 3 } "p.R"
      { store := .initial }).1.toOption = some ⟨14⟩ := by decide +kernel
  rcases hm : (load (ofStubs sharedStubs) { maxDepth := 3 } "p.R" { store := .initial }).1
    with e | i
  · rw [hm] at hok
    cases hok
  · rw [hm] at hok
    exact congrArg Except.ok (Option.some.inj hok)

theorem readable_shared (name : String) (stub : ClassStub)
    (h : ofStubs sharedStubs name = some stub) : stub.Readable := by
  have hall : ∀ stub ∈ sharedStubs, stub.Readable := by decide +kernel
  exact hall stub (mem_of_ofStubs h).1

theorem mentions_shared : sharedState.store.Mentions "p.R" "p.A" ∧
    sharedState.store.Mentions "p.A" "p.X" :=
  ⟨⟨⟨14⟩, ⟨16⟩, by decide +kernel, by decide +kernel, by decide +kernel⟩,
    ⟨⟨16⟩, ⟨17⟩, by decide +kernel, by decide +kernel, by decide +kernel⟩⟩

/-- The class two steps away was asked for behind the longer way only, three classes deep. -/
theorem far_side_of_shared_is_asked_at_limit : Faithful (ofStubs sharedStubs) ∧
    ∃ st', AsksFor (ofStubs sharedStubs) { maxDepth := 3 } 2 "p.R" { store := .initial } st' "p.X" ∧
      st'.inProgress.length = 3 := by
  have hfaithful : Faithful (ofStubs sharedStubs) := faithful_ofStubs _
  refine ⟨hfaithful, ?_⟩
  have hchain : Relation.ReflTransGen sharedState.store.Mentions "p.R" "p.X" :=
    .tail (.single mentions_shared.1) mentions_shared.2
  rcases defined_or_asked_at_limit hfaithful readable_shared rfl (by decide) load_shared hchain
    (by decide +kernel) with ⟨i, hi, hdefined⟩ | hasked
  · have hplace : sharedState.store.lookup? "p.X" = some ⟨17⟩ := by decide +kernel
    obtain rfl := Option.some.inj (hplace.symm.trans hi)
    have hplaceholder : (sharedState.store.get ⟨17⟩).isPlaceholder = true := by decide +kernel
    rw [hplaceholder] at hdefined
    cases hdefined
  · exact hasked

/-- A class stays a placeholder though two mentions lead to it and three levels are allowed: it is
not the distance that counts. -/
theorem near_class_stays_placeholder :
    Faithful (ofStubs sharedStubs) ∧
    (∀ name stub, ofStubs sharedStubs name = some stub → stub.Readable) ∧
    (∀ name, ¬ Relation.TransGen (EnclosedBy (ofStubs sharedStubs)) name name) ∧
    load (ofStubs sharedStubs) { maxDepth := 3 } "p.R" { store := .initial } =
      (.ok ⟨14⟩, sharedState) ∧
    sharedState.store.Mentions "p.R" "p.A" ∧ sharedState.store.Mentions "p.A" "p.X" ∧
    (∀ name ∈ ["p.R", "p.A", "p.X"], (ofStubs sharedStubs name).isSome) ∧
    sharedState.store.lookup? "p.X" = some ⟨17⟩ ∧
    (sharedState.store.get ⟨17⟩).isPlaceholder = true := by
  refine ⟨faithful_ofStubs _, readable_shared, ?_, load_shared, mentions_shared.1,
    mentions_shared.2, by decide +kernel, by decide +kernel, by decide +kernel⟩
  have hnone : ∀ stub ∈ sharedStubs, stub.declaring = none := by decide
  intro name hcircle
  obtain ⟨outer, ⟨stub, hstub, houter⟩, _⟩ := Relation.TransGen.head'_iff.mp hcircle
  rw [hnone stub (mem_of_ofStubs hstub).1] at houter
  cases houter

end Shared

end Loader

end JvmTypes
