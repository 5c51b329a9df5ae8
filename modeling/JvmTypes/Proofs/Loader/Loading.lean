import JvmTypes.Proofs.Loader.Runs
/-!
# Loading under an invariant

A regime says what holds of the store while classes are in progress, which names may be asked for,
what a question for a type variable may be answered, and how the names that were asked for account
for a larger store. If every step of loading sustains a regime, so does loading as a whole, however
deep it goes.
-/
namespace JvmTypes.Loader

def enclosingIn (s : Store) (stub : ClassStub) : Option ClassId :=
  if stub.flags.isStatic then none else stub.declaring.bind s.lookup?

structure Regime (source : Source) (config : Config) where
  /-- What holds of the store while the classes of a list are in progress, innermost first. -/
  kept : List String → Store → Prop
  wanted : List String → Store → String → Prop
  seen : Option ClassId → Store → String → Option TypeVariable → Prop
  accounts : Store → List String → Store → Prop
  /-- A load may fail. -/
  faulty : Prop

namespace Regime

variable {source : Source} {config : Config} (R : Regime source config)

def answers (enclosing : Option ClassId) (s : Store) : Answers where
  cls name id := s.lookup? name = some id
  var := R.seen enclosing s
  faulty := R.faulty

/-- A state in which the classes of `stack` are in progress. -/
structure Holds (stack : List String) (st : State) : Prop where
  inProgress : st.inProgress = stack
  nodup : stack.Nodup
  sound : st.store.Sound
  seeded : Store.initial.Grows st.store
  placeholder : ∀ name ∈ stack, ∃ id, st.store.lookup? name = some id ∧
    (st.store.get id).isPlaceholder = true
  loaded : ∀ name ∈ st.loaded, ∃ id, st.store.lookup? name = some id ∧
    (st.store.get id).isPlaceholder = false
  kept : R.kept stack st.store

def frame (stack : List String) : Frame where
  inv := R.Holds stack
  le st st' := st.store.Grows st'.store
  refl st := .refl st.store
  trans h h' := h.trans h'
  sound h := h.sound
  grows h := h
  drop _ h := ⟨⟨h.inProgress, h.nodup, h.sound, h.seeded, h.placeholder, h.loaded, h.kept⟩,
    .refl _⟩

/-- Every step of loading sustains the regime. -/
structure Sustained : Prop where
  seen_mono : ∀ enclosing s t symbol v, s.Sound → s.Grows t → R.seen enclosing s symbol v →
    R.seen enclosing t symbol v
  wanted_mono : ∀ stack s t name, s.Grows t → R.wanted stack s name → R.wanted stack t name
  strict : config.strict = true → R.faulty
  enter : ∀ stack st name stub, R.Holds stack st → R.wanted stack st.store name →
    source name = some stub → name ∉ stack →
    (∀ id, st.store.lookup? name = some id → (st.store.get id).isPlaceholder = true) →
    R.kept (name :: stack) (st.store.intern name).2
  intern : ∀ stack st name, R.Holds stack st → R.wanted stack st.store name →
    R.faulty ∨ source name = none ∨ config.maxDepth ≤ stack.length →
    R.kept stack (st.store.intern name).2
  names : ∀ stack st name stub id n, R.Holds (name :: stack) st → source name = some stub →
    st.store.lookup? name = some id →
    (Script.classDecl id stub).Asks (R.answers (enclosingIn st.store stub) st.store) (.cls n) →
    R.wanted (name :: stack) st.store n
  symbols : ∀ stack st name stub id symbol, R.Holds (name :: stack) st → source name = some stub →
    st.store.lookup? name = some id →
    (Script.classDecl id stub).Asks (R.answers (enclosingIn st.store stub) st.store) (.var symbol) →
    R.seen (enclosingIn st.store stub) st.store symbol
      (seenFrom st.store (enclosingIn st.store stub) symbol)
  total : ∀ name stub id enclosing s, source name = some stub →
    (Script.classDecl id stub).Ends (R.answers enclosing s) none → R.faulty
  leave : ∀ stack st name stub id decl, R.Holds (name :: stack) st → source name = some stub →
    st.store.lookup? name = some id →
    (Script.classDecl id stub).Ends (R.answers (enclosingIn st.store stub) st.store) (some decl) →
    decl.name = name → R.kept stack (st.store.define id decl)
  abandon : ∀ stack st name, R.faulty → R.Holds (name :: stack) st → R.kept stack st.store
  accounting : Frame.Accounting R.faulty R.accounts
  accounts_intern : ∀ s name, R.accounts s [name] (s.intern name).2
  accounts_leave : ∀ s stack st name stub id decl names, R.Holds (name :: stack) st →
    source name = some stub →
    st.store.lookup? name = some id →
    (Script.classDecl id stub).Trace (R.answers (enclosingIn st.store stub) st.store)
      (some decl) names →
    decl.name = name → R.accounts (s.intern name).2 names st.store →
    R.accounts s [name] (st.store.define id decl)

def Resolves (stack : List String) (resolve : Resolver) : Prop :=
  ∀ name st, R.Holds stack st → R.wanted stack st.store name →
    (R.frame stack).Runs (resolve name) st
      (fun id st' => st'.store.lookup? name = some id ∧ R.accounts st.store [name] st'.store)
      fun _ _ => R.faulty

/-- Answers that may be given while the class of the stub is converted, with the classes of `stack`
in progress around it. -/
structure Admits (stack : List String) (name : String) (stub : ClassStub)
    (A : Option ClassId → Store → Answers) :
    Prop where
  faulty : ∀ enclosing s, (A enclosing s).faulty = R.faulty
  cls : ∀ enclosing s n i, (A enclosing s).cls n i ↔ s.lookup? n = some i
  le : ∀ enclosing s, (A enclosing s).Le (R.answers enclosing s)
  mono : ∀ st st', R.Holds (name :: stack) st → R.Holds (name :: stack) st' →
    st.store.Grows st'.store →
    (A (enclosingIn st.store stub) st.store).Le (A (enclosingIn st.store stub) st'.store)
  symbols : ∀ st id symbol, R.Holds (name :: stack) st → st.store.lookup? name = some id →
    (Script.classDecl id stub).Asks (A (enclosingIn st.store stub) st.store) (.var symbol) →
    (A (enclosingIn st.store stub) st.store).var symbol
      (seenFrom st.store (enclosingIn st.store stub) symbol)

variable {R}

theorem Sustained.answers_mono (hR : R.Sustained) {enclosing : Option ClassId} {s t : Store}
    (hs : s.Sound) (h : s.Grows t) : (R.answers enclosing s).Le (R.answers enclosing t) :=
  ⟨fun _ _ hid => h.lookup? hid, fun symbol v => hR.seen_mono enclosing s t symbol v hs h,
    fun hf => hf⟩

theorem Sustained.admits (hR : R.Sustained) {name : String} {stub : ClassStub}
    (hstub : source name = some stub) (stack : List String) :
    R.Admits stack name stub R.answers where
  faulty _ _ := rfl
  cls _ _ _ _ := Iff.rfl
  le _ _ := ⟨fun _ _ h => h, fun _ _ h => h, fun h => h⟩
  mono _ _ hst _ hle := hR.answers_mono hst.sound hle
  symbols st id symbol hst hid hasks := hR.symbols stack st name stub id symbol hst hstub hid hasks

variable {stack : List String} {st : State} {name : String} {stub : ClassStub} {id : ClassId}
  {resolve : Resolver}

theorem Holds.loaded_mono (h : R.Holds stack st) {s : Store} (hle : st.store.Grows s) :
    ∀ n ∈ st.loaded, ∃ id, s.lookup? n = some id ∧ (s.get id).isPlaceholder = false := by
  intro n hn
  obtain ⟨id, hid, hdefined⟩ := h.loaded n hn
  exact ⟨id, hle.lookup? hid, by rw [hle.get_eq id hdefined, hdefined]⟩

theorem Holds.not_mem_loaded (h : R.Holds stack st)
    (hp : ∀ id, st.store.lookup? name = some id → (st.store.get id).isPlaceholder = true) :
    name ∉ st.loaded := by
  intro hmem
  obtain ⟨id, hid, hdefined⟩ := h.loaded name hmem
  rw [hp id hid] at hdefined
  cases hdefined

theorem Holds.intern (h : R.Holds stack st) (hkept : R.kept stack (st.store.intern name).2) :
    R.Holds stack { st with store := (st.store.intern name).2 } := by
  refine ⟨h.inProgress, h.nodup, h.sound.intern name, h.seeded.trans (Store.grows_intern _ _), ?_,
    h.loaded_mono (Store.grows_intern _ _), hkept⟩
  intro n hn
  obtain ⟨id, hid, hp⟩ := h.placeholder n hn
  refine ⟨id, (Store.grows_intern _ _).lookup? hid, ?_⟩
  rw [Store.get_intern (Store.index_lt_of_lookup? hid), hp]

theorem runs_intern (hR : R.Sustained) (bad : LoadError → State → Prop) (h : R.Holds stack st)
    (hkept : R.kept stack (st.store.intern name).2) :
    (R.frame stack).Runs (Loader.intern name) st
      (fun id st' => st'.store.lookup? name = some id ∧ R.accounts st.store [name] st'.store) bad :=
  .of_ok rfl (h.intern hkept) (Store.grows_intern _ _)
    ⟨Store.lookup?_intern st.store name, hR.accounts_intern st.store name⟩

theorem resolves_intern (hR : R.Sustained) (h : config.maxDepth ≤ stack.length) :
    R.Resolves stack Loader.intern :=
  fun name st hst hw => runs_intern hR _ hst (hR.intern stack st name hst hw (Or.inr (Or.inr h)))

theorem declaring_cases {declaring : Option ClassId} {s : Store}
    (hd : declaring = stub.declaring.bind s.lookup?)
    (hsome : stub.declaring.isSome → declaring.isSome) :
    (stub.declaring = none ∧ declaring = none) ∨
      ∃ outer d, stub.declaring = some outer ∧ declaring = some d ∧ s.lookup? outer = some d := by
  cases ho : stub.declaring with
  | none => exact Or.inl ⟨rfl, by rw [hd, ho]; rfl⟩
  | some outer =>
    obtain ⟨d, rfl⟩ := Option.isSome_iff_exists.mp (hsome (by simp [ho]))
    rw [ho] at hd
    exact Or.inr ⟨outer, d, rfl, rfl, hd.symm⟩

theorem classDecl_of_classBody {declaring : Option ClassId} {s : Store}
    (hd : declaring = stub.declaring.bind s.lookup?)
    (hsome : stub.declaring.isSome → declaring.isSome) {A : Answers}
    (hA : ∀ n i, s.lookup? n = some i → A.cls n i) :
    enclosingIn s stub = (if stub.flags.isStatic then none else declaring) ∧
      (∀ q, (Script.classBody id declaring stub).Asks A q → (Script.classDecl id stub).Asks A q) ∧
      ∀ r names, (Script.classBody id declaring stub).Trace A r names →
        (Script.classDecl id stub).Trace A r (stub.declaring.toList ++ names) := by
  refine ⟨by rw [enclosingIn, hd], ?_⟩
  rcases declaring_cases hd hsome with ⟨ho, rfl⟩ | ⟨outer, d, ho, rfl, hlookup⟩
  · rw [Script.classDecl, ho]
    exact ⟨fun _ h => h, fun _ _ h => h⟩
  · rw [Script.classDecl, ho]
    exact ⟨fun _ h => Or.inr ⟨d, hA outer d hlookup, h⟩,
      fun _ _ h => Or.inl ⟨d, _, hA outer d hlookup, rfl, h⟩⟩

theorem runs_declaring (hR : R.Sustained) (hresolve : R.Resolves (name :: stack) resolve)
    (hst : R.Holds (name :: stack) st) (hstub : source name = some stub)
    (hid : st.store.lookup? name = some id) :
    (R.frame (name :: stack)).Runs (stub.declaring.mapM (referenced resolve)) st
      (fun declaring st' =>
        declaring = stub.declaring.bind st'.store.lookup? ∧
        (stub.declaring.isSome → declaring.isSome) ∧
          R.accounts st.store stub.declaring.toList st'.store)
      fun _ _ => R.faulty := by
  cases hd : stub.declaring with
  | none => exact Frame.runs_pure hst ⟨rfl, by simp, hR.accounting.nil _⟩
  | some outer =>
    have hw : R.wanted (name :: stack) st.store outer :=
      hR.names stack st name stub id outer hst hstub hid (by
        rw [Script.classDecl, hd]
        exact Or.inl rfl)
    rw [Option.mapM_some, map_eq_pure_bind, ← wrapped_resolve]
    have hwrapped : (R.frame (name :: stack)).Runs (wrapped (resolve outer)) st
        (fun d st' => st'.store.lookup? outer = some d ∧ R.accounts st.store [outer] st'.store)
        fun _ _ => R.faulty :=
      Frame.runs_wrapped (hresolve outer st hst hw)
    refine hwrapped.bind ?_
    rintro d st₁ hinv₁ _ ⟨hd, hacc⟩
    exact Frame.runs_pure hinv₁ ⟨hd.symm, by simp, hacc⟩

theorem declaring_of_grows {declaring : Option ClassId} {s t : Store} (hle : s.Grows t)
    (hd : declaring = stub.declaring.bind s.lookup?)
    (hsome : stub.declaring.isSome → declaring.isSome) :
    declaring = stub.declaring.bind t.lookup? := by
  rcases declaring_cases hd hsome with ⟨ho, rfl⟩ | ⟨outer, d, ho, rfl, hlookup⟩
  · rw [ho]
    rfl
  · rw [ho, Option.bind_some, hle.lookup? hlookup]

theorem serves_classBody (hR : R.Sustained) {A : Option ClassId → Store → Answers}
    (hA : R.Admits stack name stub A) (hstub : source name = some stub)
    (hid : st.store.lookup? name = some id) {declaring enclosing : Option ClassId}
    (hpart : ∀ st' : State, st.store.Grows st'.store → enclosingIn st'.store stub = enclosing ∧
      ∀ q, (Script.classBody id declaring stub).Asks (A enclosing st'.store) q →
        (Script.classDecl id stub).Asks (A enclosing st'.store) q) :
    (R.frame (name :: stack)).Serves (fun st' => A enclosing st'.store)
      (fun n st' => R.wanted (name :: stack) st'.store n) enclosing
      (Script.classBody id declaring stub) st where
  keeps st₂ st₃ hinv₂ hinv₃ hle₂ hle₃ := by
    have hmono := hA.mono st₂ st₃ hinv₂ hinv₃ hle₃
    rwa [(hpart st₂ hle₂).1] at hmono
  cls n st' hinv' hle' hasks := by
    obtain ⟨henc, hasks'⟩ := hpart st' hle'
    exact hR.names stack st' name stub id n hinv' hstub (Store.Grows.lookup? hle' hid)
      (by rw [henc]; exact (hasks' _ hasks).mono (hA.le enclosing st'.store))
  var symbol st' hinv' hle' hasks := by
    obtain ⟨henc, hasks'⟩ := hpart st' hle'
    have hseen := hA.symbols st' id symbol hinv' (Store.Grows.lookup? hle' hid)
      (by rw [henc]; exact hasks' _ hasks)
    rwa [henc] at hseen

theorem runs_classDecl (hR : R.Sustained) {A : Option ClassId → Store → Answers}
    (hA : R.Admits stack name stub A) (hresolve : R.Resolves (name :: stack) resolve)
    (hst : R.Holds (name :: stack) st) (hstub : source name = some stub)
    (hid : st.store.lookup? name = some id) :
    (R.frame (name :: stack)).Runs (classDecl config resolve id stub) st
      (fun decl st' => ∃ names,
        (Script.classDecl id stub).Trace (A (enclosingIn st'.store stub) st'.store)
          (some decl) names ∧
          R.accounts st.store names st'.store)
      fun _ _ => R.faulty := by
  refine Frame.runs_of_wrapped ?_
  rw [Script.run_classDecl]
  refine (runs_declaring hR hresolve hst hstub hid).bind ?_
  rintro declaring st₁ hinv₁ hle ⟨hd, hsome, hfront⟩
  have hle₁ : st.store.Grows st₁.store := hle
  set enclosing := if stub.flags.isStatic then none else declaring with henclosing
  -- the enclosing class stays, so the body is a part of the whole script in all later states
  have hpart : ∀ st' : State, st₁.store.Grows st'.store → enclosingIn st'.store stub = enclosing ∧
      (∀ q, (Script.classBody id declaring stub).Asks (A enclosing st'.store) q →
        (Script.classDecl id stub).Asks (A enclosing st'.store) q) ∧
      ∀ r names, (Script.classBody id declaring stub).Trace (A enclosing st'.store) r names →
        (Script.classDecl id stub).Trace (A enclosing st'.store) r
          (stub.declaring.toList ++ names) :=
    fun st' hle' => classDecl_of_classBody (declaring_of_grows hle' hd hsome) hsome fun n i h =>
      (hA.cls _ _ n i).mpr h
  have hserves := serves_classBody hR hA hstub (hle₁.lookup? hid) fun st' hle' =>
    ⟨(hpart st' hle').1, (hpart st' hle').2.1⟩
  have hacc : ∀ st' : State, Frame.Accounting (A enclosing st'.store).faulty R.accounts := by
    intro st'
    rw [hA.faulty]
    exact hR.accounting
  have hbody := Frame.runs_script hacc
    (fun n st₂ hinv₂ hw => (hresolve n st₂ hinv₂ hw).imp
      (fun i st' _ _ h => ⟨(hA.cls enclosing st'.store n i).mpr h.1, h.2⟩)
      fun _ st' _ _ h => (hA.faulty enclosing st'.store).mpr h)
    (fun hs st' => (hA.faulty enclosing st'.store).mpr (hR.strict hs)) _ hinv₁ hserves
  refine hbody.imp ?_ ?_
  · rintro decl st' _ hle' ⟨names, htrace, hrest⟩
    obtain ⟨henc, _, htraces⟩ := hpart st' hle'
    refine ⟨stub.declaring.toList ++ names, ?_, hR.accounting.append _ _ _ _ _ hle' hfront hrest⟩
    rw [henc]
    exact htraces _ _ htrace
  · rintro _ st' _ hle' ⟨names, htrace, _⟩
    have hend := ((hpart st' hle').2.2 _ _ htrace).ends.mono (hA.le enclosing st'.store)
    exact hR.total name stub id enclosing st'.store hstub hend

/-- The state in which the stub of a class is converted. -/
def entered (st : State) (name : String) : State :=
  { st with store := (st.store.intern name).2, inProgress := name :: st.inProgress }

theorem Holds.enter (hR : R.Sustained) (h : R.Holds stack st) (hw : R.wanted stack st.store name)
    (hstub : source name = some stub) (hfresh : name ∉ stack)
    (hp : ∀ id, st.store.lookup? name = some id → (st.store.get id).isPlaceholder = true) :
    R.Holds (name :: stack) (entered st name) := by
  refine ⟨congrArg _ h.inProgress, List.nodup_cons.mpr ⟨hfresh, h.nodup⟩, h.sound.intern name,
    h.seeded.trans (Store.grows_intern _ _), ?_, h.loaded_mono (Store.grows_intern _ _),
    hR.enter stack st name stub h hw hstub hfresh hp⟩
  intro n hn
  rcases List.mem_cons.mp hn with rfl | hn
  · exact ⟨_, Store.lookup?_intern st.store n, Store.isPlaceholder_intern hp⟩
  · obtain ⟨id, hid, hpn⟩ := h.placeholder n hn
    refine ⟨id, (Store.grows_intern _ _).lookup? hid, ?_⟩
    rw [entered, Store.get_intern (Store.index_lt_of_lookup? hid), hpn]

def left (st : State) (name : String) (id : ClassId) (decl : ClassDecl) : State :=
  { st with
    store := st.store.define id decl, inProgress := st.inProgress.erase name,
    loaded := name :: st.loaded }

theorem Holds.isPlaceholder (h : R.Holds (name :: stack) st)
    (hid : st.store.lookup? name = some id) :
    (st.store.get id).isPlaceholder = true := by
  obtain ⟨id', hid', hp⟩ := h.placeholder name (by simp)
  obtain rfl := Option.some.inj (hid.symm.trans hid')
  exact hp

theorem Holds.leave {decl : ClassDecl} (h : R.Holds (name :: stack) st)
    (hid : st.store.lookup? name = some id) (hname : decl.name = name)
    (hdefined : decl.isPlaceholder = false) (hkept : R.kept stack (st.store.define id decl)) :
    R.Holds stack (left st name id decl) ∧ st.store.Grows (st.store.define id decl) := by
  obtain ⟨hfresh, hnodup⟩ := List.nodup_cons.mp h.nodup
  have hnameid : decl.name = st.store.name id := by rw [hname, Store.name_of_lookup? hid]
  have hgrows := Store.grows_define (h.isPlaceholder hid) hnameid
  refine ⟨⟨?_, hnodup, h.sound.define hnameid hdefined, h.seeded.trans hgrows, ?_, ?_, hkept⟩,
    hgrows⟩
  · rw [left, h.inProgress, List.erase_cons_head]
  · intro n hn
    obtain ⟨i, hi, hpi⟩ := h.placeholder n (by simp [hn])
    have hne : i ≠ id := by
      rintro rfl
      rw [← Store.name_of_lookup? hi, Store.name_of_lookup? hid] at hn
      exact hfresh hn
    exact ⟨i, hgrows.lookup? hi, by rw [left, Store.get_define_ne hne, hpi]⟩
  · intro n hn
    rcases List.mem_cons.mp hn with rfl | hn
    · refine ⟨id, hgrows.lookup? hid, ?_⟩
      rw [left, Store.get_define_self (Store.index_lt_of_lookup? hid), hdefined]
    · exact h.loaded_mono hgrows n hn

theorem loadStub_eq (st : State) (hstub : source name = some stub) :
    loadWith.loadStub source config resolve name st =
      match classDecl config resolve (st.store.intern name).1 stub (entered st name) with
      | (.ok decl, st') =>
          (.ok (st.store.intern name).1, left st' name (st.store.intern name).1 decl)
      | (.error e, st') => (.error e, { st' with inProgress := st'.inProgress.erase name }) := by
  have hintern : (Loader.intern name : Load LoadError ClassId) st =
      (.ok (st.store.intern name).1, { st with store := (st.store.intern name).2 }) := rfl
  simp only [loadWith.loadStub, hstub]
  rw [Frame.bind_of_ok hintern]
  have hprogress : ∀ {result : Except LoadError ClassDecl} {st' : State},
      classDecl config resolve (st.store.intern name).1 stub (entered st name) = (result, st') →
      progressing name (classDecl config resolve (st.store.intern name).1 stub)
        { st with store := (st.store.intern name).2 } =
          (result, { st' with inProgress := st'.inProgress.erase name }) := by
    intro result st' hm
    rw [progressing]
    change (match classDecl config resolve (st.store.intern name).1 stub (entered st name) with
      | (result, st) => (result, { st with inProgress := st.inProgress.erase name })) = _
    rw [hm]
  rcases hm : classDecl config resolve (st.store.intern name).1 stub (entered st name) with
    ⟨e | decl, st'⟩
  · rw [Frame.bind_of_error (hprogress hm)]
  · rw [Frame.bind_of_ok (hprogress hm)]
    rfl

theorem runs_loadStub (hR : R.Sustained) (hresolve : R.Resolves (name :: stack) resolve)
    (hst : R.Holds stack st) (hw : R.wanted stack st.store name) (hstub : source name = some stub)
    (hname : stub.name = name) (hfresh : name ∉ stack)
    (hp : ∀ id, st.store.lookup? name = some id → (st.store.get id).isPlaceholder = true) :
    (R.frame stack).Runs (loadWith.loadStub source config resolve name) st
      (fun id st' => st'.store.lookup? name = some id ∧ (st'.store.get id).isPlaceholder = false ∧
        R.accounts st.store [name] st'.store)
      fun _ _ => R.faulty := by
  have hrun :=
    runs_classDecl hR (hR.admits hstub stack) hresolve (hst.enter hR hw hstub hfresh hp) hstub
    (Store.lookup?_intern st.store name)
  have hgrows : st.store.Grows (entered st name).store := Store.grows_intern st.store name
  have heq := @loadStub_eq source config name stub resolve st hstub
  rcases hm : classDecl config resolve (st.store.intern name).1 stub (entered st name) with
    ⟨e | decl, st'⟩ <;> rw [hm] at heq
  · obtain ⟨hinv, hle, hfaulty⟩ := hrun.eq_error hm
    refine .of_error heq ?_ (hgrows.trans hle) hfaulty
    refine ⟨?_, (List.nodup_cons.mp hinv.nodup).2, hinv.sound, hinv.seeded,
      fun n hn => hinv.placeholder n (by simp [hn]), hinv.loaded,
      hR.abandon stack st' name hfaulty hinv⟩
    rw [hinv.inProgress, List.erase_cons_head]
  · obtain ⟨hinv, hle, names, htrace, hacc⟩ := hrun.eq_ok hm
    have hend := htrace.ends
    obtain ⟨declaring, _, hbody⟩ := Script.ends_classDecl hend
    obtain ⟨_, _, _, _, hdeclname, _, _, hdefined, _⟩ := Script.ends_classBody hbody
    have hid : st'.store.lookup? name = some (st.store.intern name).1 :=
      Store.Grows.lookup? hle (Store.lookup?_intern st.store name)
    obtain ⟨hholds, hleave⟩ := hinv.leave hid (hdeclname.trans hname) hdefined
      (hR.leave stack st' name stub _ decl hinv hstub hid hend (hdeclname.trans hname))
    refine .of_ok heq hholds ((hgrows.trans hle).trans hleave) ⟨hleave.lookup? hid, ?_, ?_⟩
    · change ((st'.store.define _ decl).get _).isPlaceholder = false
      rw [Store.get_define_self (Store.index_lt_of_lookup? hid), hdefined]
    · exact hR.accounts_leave st.store stack st' name stub _ decl names hinv hstub hid htrace
        (hdeclname.trans hname) hacc

/-- A load ends at the place of its class, which is defined or in progress, or the source does not
know the class. -/
def Loads (R : Regime source config) (stack : List String) (load : Resolver) : Prop :=
  ∀ name st, R.Holds stack st → R.wanted stack st.store name →
    (R.frame stack).Runs (load name) st
      (fun id st' => st'.store.lookup? name = some id ∧
        (name ∈ stack ∨ (st'.store.get id).isPlaceholder = false) ∧
        R.accounts st.store [name] st'.store)
      fun e st' => R.faulty ∨ (source name = none ∧ e = .notFound name ∧ st'.store = st.store)

theorem runs_fresh (hR : R.Sustained) (hresolve : R.Resolves (name :: stack) resolve)
    (hfaithful : ∀ name stub, source name = some stub → stub.name = name)
    (hst : R.Holds stack st) (hw : R.wanted stack st.store name) (hfresh : name ∉ stack)
    (hp : ∀ id, st.store.lookup? name = some id → (st.store.get id).isPlaceholder = true) :
    (R.frame stack).Runs (loadWith.loadStub source config resolve name) st
      (fun id st' => st'.store.lookup? name = some id ∧
        (name ∈ stack ∨ (st'.store.get id).isPlaceholder = false) ∧
        R.accounts st.store [name] st'.store)
      fun e st' => R.faulty ∨
        (source name = none ∧ e = .notFound name ∧ st'.store = st.store) := by
  cases hs : source name with
  | none =>
    simp only [loadWith.loadStub, hs]
    exact Frame.runs_throw hst (Or.inr ⟨trivial, rfl, rfl⟩)
  | some stub =>
    have hrun := runs_loadStub hR hresolve hst hw hs (hfaithful name stub hs) hfresh hp
    refine hrun.imp ?_ ?_
    · exact fun id st' _ _ h => ⟨h.1, Or.inr h.2.1, h.2.2⟩
    · exact fun _ _ _ _ h => Or.inl h

theorem Holds.known (hst : R.Holds stack st) (hid : st.store.lookup? name = some id)
    (hknown : (name ∈ st.loaded ∨ name ∈ st.inProgress) ∨ (st.store.get id).isPlaceholder = false) :
    name ∈ stack ∨ (st.store.get id).isPlaceholder = false := by
  rcases hknown with (hloaded | hprogress) | hdefined
  · obtain ⟨i, hi, hdefined⟩ := hst.loaded name hloaded
    obtain rfl := Option.some.inj (hid.symm.trans hi)
    exact Or.inr hdefined
  · exact Or.inl (hst.inProgress ▸ hprogress)
  · exact Or.inr hdefined

theorem loads_loadWith (hR : R.Sustained)
    (hfaithful : ∀ name stub, source name = some stub → stub.name = name)
    (hresolve : ∀ name, R.Resolves (name :: stack) resolve) :
    R.Loads stack (loadWith source config resolve) := by
  intro name st hst hw
  have hget : (R.frame stack).Runs (get : Load LoadError State) st
      (fun st₁ st' => st₁ = st ∧ st' = st)
      fun e st' => R.faulty ∨ (source name = none ∧ e = .notFound name ∧ st'.store = st.store) :=
    .of_ok rfl hst ((R.frame stack).refl st) ⟨rfl, rfl⟩
  rw [loadWith]
  refine hget.bind ?_
  rintro _ st₁ _ _ ⟨rfl, rfl⟩
  cases hl : st₁.store.lookup? name with
  | none =>
    refine runs_fresh hR (hresolve name) hfaithful hst hw ?_ (by simp [hl])
    intro hmem
    obtain ⟨id, hid, _⟩ := hst.placeholder name hmem
    simp [hl] at hid
  | some id =>
    change (R.frame stack).Runs (if _ then _ else _) _ _ _
    split
    · rename_i hknown
      have hacc := hR.accounts_intern st₁.store name
      rw [Store.intern_of_lookup? hl] at hacc
      simp only [Bool.or_eq_true, decide_eq_true_eq, Bool.not_eq_true'] at hknown
      exact Frame.runs_pure hst ⟨hl, hst.known hl hknown, hacc⟩
    · rename_i hunknown
      simp only [hst.inProgress, Bool.or_eq_true, decide_eq_true_eq, Bool.not_eq_true',
        not_or] at hunknown
      refine runs_fresh hR (hresolve name) hfaithful hst hw hunknown.1.2 ?_
      intro id' hid'
      obtain rfl := Option.some.inj (hl.symm.trans hid')
      simpa using hunknown.2

theorem resolves_orIntern (hR : R.Sustained) {load : Resolver} (h : R.Loads stack load) :
    R.Resolves stack (orIntern load) := by
  intro name st hst hw
  have hrun := h name st hst hw
  rcases hm : load name st with ⟨e | id, st'⟩
  · obtain ⟨hinv, hle, hcause⟩ := hrun.eq_error hm
    by_cases hn : ∃ n, e = .notFound n
    · obtain ⟨n, rfl⟩ := hn
      have heq : orIntern load name st = Loader.intern name st' := by simp only [orIntern, hm]
      have hkept : R.kept stack (st'.store.intern name).2 := by
        refine hR.intern stack st' name hinv (hR.wanted_mono stack _ _ name hle hw) ?_
        rcases hcause with hf | ⟨hnone, _⟩
        · exact Or.inl hf
        · exact Or.inr (Or.inl hnone)
      refine .of_ok heq (hinv.intern hkept) (Store.Grows.trans hle (Store.grows_intern _ _))
        ⟨Store.lookup?_intern st'.store name, ?_⟩
      rcases hcause with hf | ⟨_, _, hsame⟩
      · exact hR.accounting.faulty hf _ _ _
      · rw [← hsame]
        exact hR.accounts_intern st'.store name
    · have heq : orIntern load name st = (.error e, st') := by
        cases e with
        | notFound n => exact absurd ⟨n, rfl⟩ hn
        | malformedSignature _ _ => simp only [orIntern, hm]
        | malformedDescriptor _ _ => simp only [orIntern, hm]
      refine .of_error heq hinv hle ?_
      rcases hcause with hf | ⟨_, rfl, _⟩
      · exact hf
      · exact absurd ⟨name, rfl⟩ hn
  · obtain ⟨hinv, hle, hid, _, hacc⟩ := hrun.eq_ok hm
    exact .of_ok (by simp only [orIntern, hm]) hinv hle ⟨hid, hacc⟩

theorem loadWith_of_defined {st : State} {id : ClassId} (hid : st.store.lookup? name = some id)
    (hdefined : (st.store.get id).isPlaceholder = false) :
    loadWith source config resolve name st = (.ok id, st) := by
  have hget : (get : Load LoadError State) st = (.ok st, st) := rfl
  rw [loadWith, Frame.bind_of_ok hget]
  simp only [hid, hdefined, Bool.not_false, Bool.or_true, if_true]
  rfl

theorem loadWith_of_visited {st : State} {id : ClassId} (hid : st.store.lookup? name = some id)
    (h : name ∈ st.loaded ∨ name ∈ st.inProgress) :
    loadWith source config resolve name st = (.ok id, st) := by
  have hget : (get : Load LoadError State) st = (.ok st, st) := rfl
  have hvisited : (name ∈ st.loaded || name ∈ st.inProgress) = true := by simpa using h
  rw [loadWith, Frame.bind_of_ok hget]
  simp only [hid, hvisited, Bool.true_or, if_true]
  rfl

theorem loadWith_of_undefined {st : State} (h : ∀ id, st.store.lookup? name = some id →
      name ∉ st.loaded ∧ name ∉ st.inProgress ∧ (st.store.get id).isPlaceholder = true) :
    loadWith source config resolve name st = loadWith.loadStub source config resolve name st := by
  have hget : (get : Load LoadError State) st = (.ok st, st) := rfl
  rw [loadWith, Frame.bind_of_ok hget]
  cases hl : st.store.lookup? name with
  | none => rfl
  | some id =>
    obtain ⟨hnew, hfree, hp⟩ := h id hl
    simp [hnew, hfree, hp]

theorem depth_cons (name : String) (levels : Nat) {stack : List String}
    (h : config.maxDepth ≤ stack.length + levels + 1) :
    config.maxDepth ≤ (name :: stack).length + levels := by
  rw [List.length_cons]
  omega

theorem depth_nil (config : Config) :
    config.maxDepth ≤ ([] : List String).length + (config.maxDepth - 1) + 1 := by
  rw [List.length_nil]
  omega

/-- The depth that is left and the classes in progress make up the depth that is allowed. -/
theorem loads_loadWithin (hR : R.Sustained)
    (hfaithful : ∀ name stub, source name = some stub → stub.name = name) (levels : Nat)
    {stack : List String} (h : config.maxDepth ≤ stack.length + levels + 1) :
    R.Loads stack (loadWithin source config levels) := by
  induction levels generalizing stack with
  | zero =>
    apply loads_loadWith hR hfaithful
    intro name
    exact resolves_intern hR (depth_cons name 0 h)
  | succ levels ih =>
    apply loads_loadWith hR hfaithful
    intro name
    exact resolves_orIntern hR (ih (depth_cons name (levels + 1) h))

/-- How the classes that a class mentions are resolved, with so many levels left. -/
def mentioned (source : Source) (config : Config) : Nat → Resolver
  | 0 => Loader.intern
  | levels + 1 => orIntern (loadWithin source config levels)

theorem loadWithin_eq (source : Source) (config : Config) (levels : Nat) :
    loadWithin source config levels = loadWith source config (mentioned source config levels) := by
  cases levels <;> rfl

theorem resolves_mentioned (hR : R.Sustained)
    (hfaithful : ∀ name stub, source name = some stub → stub.name = name) {levels : Nat}
    (h : config.maxDepth ≤ stack.length + levels) :
    R.Resolves stack (mentioned source config levels) := by
  cases levels with
  | zero => exact resolves_intern hR h
  | succ levels => exact resolves_orIntern hR (loads_loadWithin hR hfaithful levels h)

theorem loads_load (hR : R.Sustained)
    (hfaithful : ∀ name stub, source name = some stub → stub.name = name) :
    R.Loads [] (load source config) :=
  loads_loadWithin hR hfaithful (config.maxDepth - 1) (depth_nil config)

end Regime

end JvmTypes.Loader
