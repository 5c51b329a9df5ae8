import JvmTypes.Proofs.Loader.Loading
/-!
# Conversions in a finished store

A store that knows every name which a conversion asks for has one answer to each of its questions.
There the conversion runs without a change to the store, and what it yields is the end of its script
with these answers.
-/
namespace JvmTypes.Loader

/-- The answers of a store, for a declaration inside the class `enclosing`. -/
def exactly (s : Store) (enclosing : Option ClassId) : Answers where
  cls name id := s.lookup? name = some id
  var symbol v := v = seenFrom s enclosing symbol
  faulty := False

theorem functional_exactly (s : Store) (enclosing : Option ClassId) :
    (exactly s enclosing).Functional where
  cls _ _ _ hi hj := Option.some.inj (hi.symm.trans hj)
  var _ _ _ hv hw := hv.trans hw.symm
  safe h := h

namespace Script

variable {α β : Type} {A : Answers}

section Run

variable {config : Config} (hlenient : config.strict = false) (enclosing : Option ClassId)

theorem referenced_intern (st : State) {name : String} {id : ClassId}
    (h : st.store.lookup? name = some id) :
    referenced intern name st = (.ok id, st) := by
  simp only [referenced, intern, Store.intern_of_lookup? h]

include hlenient in
theorem wrapped_settle (owner : String) (m : Load SignatureFault α) (st : State) :
    (wrapped (settle config owner m) st).1 = .ok (m st).1.toOption ∧
      (wrapped (settle config owner m) st).2.store = (m st).2.store := by
  rcases hm : m st with ⟨fault | a, st'⟩
  · simp [wrapped, settle, hm, hlenient, Except.toOption]
  · simp [wrapped, settle, hm, Except.toOption]

include hlenient in
theorem run_of_ends {p : Script α} {r : Option α} {st : State}
    (h : p.Ends (exactly st.store enclosing) r) :
    (p.run intern config enclosing st).1.toOption = r ∧
      (p.run intern config enclosing st).2.store = st.store := by
  induction p generalizing st with
  | done a => exact ⟨h.symm, rfl⟩
  | fail fault => exact ⟨h.symm, rfl⟩
  | askClass name next ih =>
    rcases h with ⟨id, hid, h⟩ | ⟨hf, _⟩
    · have hasked := referenced_intern st hid
      rw [run, Frame.bind_of_ok hasked]
      exact ih id h
    · exact hf.elim
  | askVariable symbol next ih =>
    obtain ⟨v, rfl, h⟩ := h
    rw [run, Frame.bind_ok (a := st.store) rfl]
    exact ih _ h
  | attempt owner signature next ihs ihn =>
    rcases h with ⟨b, hb, h⟩ | ⟨hf, _⟩
    · obtain ⟨hresult, hstore⟩ := ihs hb
      obtain ⟨hok, hsettled⟩ :=
        wrapped_settle hlenient owner (signature.run intern config enclosing) st
      rw [hresult] at hok
      rw [hstore] at hsettled
      rw [run, Frame.bind_ok hok]
      obtain ⟨hend, hsame⟩ :=
        @ihn b _ (wrapped (settle config owner (signature.run intern config enclosing)) st).2
        (by rw [hsettled]; exact h)
      exact ⟨hend, hsame.trans hsettled⟩
    · exact hf.elim

include hlenient in
theorem run_intern_store (p : Script α) (st : State) :
    (p.run intern config enclosing st).2.store = st.store ∨
      st.store.size < (p.run intern config enclosing st).2.store.size := by
  induction p generalizing st with
  | done a => exact Or.inl rfl
  | fail fault => exact Or.inl rfl
  | askClass name next ih =>
    have hasked : referenced intern name st =
        (.ok (st.store.intern name).1, { st with store := (st.store.intern name).2 }) := rfl
    rw [run, Frame.bind_of_ok hasked]
    have hrest := ih (st.store.intern name).1 { st with store := (st.store.intern name).2 }
    cases hl : st.store.lookup? name with
    | some id =>
      rw [Store.intern_of_lookup? hl] at hrest ⊢
      exact hrest
    | none =>
      have hgrown : st.store.size < (st.store.intern name).2.size := by
        rw [Store.intern_of_none hl, Store.size_push]
        omega
      rcases hrest with hsame | hlarger
      · exact Or.inr (by rw [hsame]; exact hgrown)
      · exact Or.inr (hgrown.trans hlarger)
  | askVariable symbol next ih =>
    rw [run, Frame.bind_ok (a := st.store) rfl]
    exact ih _ st
  | attempt owner signature next ihs ihn =>
    obtain ⟨hok, hsettled⟩ :=
      wrapped_settle hlenient owner (signature.run intern config enclosing) st
    rw [run, Frame.bind_ok hok]
    have hfirst := ihs st
    rw [← hsettled] at hfirst
    have hrest := ihn (signature.run intern config enclosing st).1.toOption
      (wrapped (settle config owner (signature.run intern config enclosing)) st).2
    rcases hrest with hsame | hlarger
    · rwa [hsame]
    · rcases hfirst with hfirst | hfirst
      · exact Or.inr (by rwa [hfirst] at hlarger)
      · exact Or.inr (hfirst.trans hlarger)

include hlenient in
theorem size_lt_of_new (st : State) {name : String} (h : st.store.lookup? name = none)
    (p : Script α) :
    st.store.size < (p.run intern config enclosing
      { st with store := (st.store.intern name).2 }).2.store.size := by
  have hgrown : st.store.size < (st.store.intern name).2.size := by
    rw [Store.intern_of_none h, Store.size_push]
    omega
  rcases run_intern_store hlenient enclosing p { st with store := (st.store.intern name).2 } with
    hsame | hlarger
  · rwa [hsame]
  · exact hgrown.trans hlarger

include hlenient in
/-- A run that leaves the store alone met known names only, and the store answered it. -/
theorem ends_of_unchanged (p : Script α) (st : State)
    (h : (p.run intern config enclosing st).2.store = st.store) :
    p.Ends (exactly st.store enclosing) (p.run intern config enclosing st).1.toOption := by
  induction p generalizing st with
  | done a => rfl
  | fail fault => rfl
  | askClass name next ih =>
    have hasked : referenced intern name st =
        (.ok (st.store.intern name).1, { st with store := (st.store.intern name).2 }) := rfl
    rw [run, Frame.bind_of_ok hasked] at h ⊢
    cases hl : st.store.lookup? name with
    | some id =>
      rw [Store.intern_of_lookup? hl] at h ⊢
      exact Or.inl ⟨id, hl, ih id _ h⟩
    | none =>
      have hlarger := size_lt_of_new hlenient enclosing st hl (next (st.store.intern name).1)
      rw [h] at hlarger
      exact absurd hlarger (lt_irrefl _)
  | askVariable symbol next ih =>
    rw [run, Frame.bind_ok (a := st.store) rfl] at h ⊢
    exact ⟨_, rfl, ih _ _ h⟩
  | attempt owner signature next ihs ihn =>
    obtain ⟨hok, hsettled⟩ :=
      wrapped_settle hlenient owner (signature.run intern config enclosing) st
    rw [run, Frame.bind_ok hok] at h ⊢
    -- neither the signature nor what follows it can have made the store larger
    have hfirst := run_intern_store hlenient enclosing signature st
    have hrest := run_intern_store hlenient enclosing
      (next (signature.run intern config enclosing st).1.toOption)
      (wrapped (settle config owner (signature.run intern config enclosing)) st).2
    rw [h, hsettled] at hrest
    have hsame : (signature.run intern config enclosing st).2.store = st.store := by
      rcases hfirst with hsame | hlarger
      · exact hsame
      · rcases hrest with hsame | hrest
        · exact hsame.symm
        · omega
    rw [hsame] at hsettled
    refine Or.inl ⟨_, ihs st hsame, ?_⟩
    have hend := ihn _ _ (h.trans hsettled.symm)
    rwa [hsettled] at hend

include hlenient in
theorem run_intern_iff (p : Script α) (st : State) {a : α} :
    (∃ st', p.run intern config enclosing st = (.ok a, st') ∧ st'.store = st.store) ↔
      p.Ends (exactly st.store enclosing) (some a) := by
  constructor
  · rintro ⟨st', hrun, hstore⟩
    have hend := ends_of_unchanged hlenient enclosing p st (by rw [hrun, hstore])
    rwa [hrun] at hend
  · intro hend
    obtain ⟨hresult, hstore⟩ := run_of_ends hlenient enclosing hend
    rcases hrun : p.run intern config enclosing st with
      ⟨fault | b, st'⟩ <;> rw [hrun] at hresult hstore
    · simp [Except.toOption] at hresult
    · obtain rfl : b = a := by simpa [Except.toOption] using hresult
      exact ⟨st', rfl, hstore⟩

end Run

end Script

section Settled

variable {config : Config} (hlenient : config.strict = false) {s : Store} {id : ClassId}
  {stub : ClassStub}

theorem wrapped_eq_ok {m : Load LoadError α} {st st' : State} {a : α} :
    wrapped m st = (.ok a, st') ↔ m st = (.ok a, st') := by
  rcases hm : m st with ⟨e | b, st''⟩
  · have heq : wrapped m st = (.error (.reference e), st'') := by simp only [wrapped, hm]
    rw [heq]
    constructor <;> intro h <;> cases h
  · have heq : wrapped m st = (.ok b, st'') := by simp only [wrapped, hm]
    rw [heq]
    constructor <;> intro h <;> cases h <;> rfl

include hlenient in
/-- The declaration of a class that is converted again in a finished store. -/
theorem classDecl_intern_iff {decl : ClassDecl} :
    (∃ st, classDecl config intern id stub { store := s } = (.ok decl, st) ∧ st.store = s) ↔
      (Script.classDecl id stub).Ends (exactly s (enclosingIn s stub)) (some decl) := by
  have hrun := congrFun (Script.run_classDecl intern config id stub) { store := s }
  simp only [← wrapped_eq_ok (m := classDecl config intern id stub), hrun]
  cases hd : stub.declaring with
  | none =>
    have hbody :=
      Script.run_intern_iff hlenient (enclosingIn s stub) (Script.classBody id none stub)
      { store := s } (a := decl)
    rw [Script.classDecl, hd, ← hbody, enclosingIn, hd]
    rfl
  | some outer =>
    rw [Script.classDecl, hd, Option.mapM_some, map_eq_pure_bind, bind_assoc]
    simp only [pure_bind]
    cases hl : s.lookup? outer with
    | none =>
      have hasked : referenced intern outer { store := s } =
          (.ok (s.intern outer).1, { store := (s.intern outer).2 }) := rfl
      constructor
      · rintro ⟨st, hst, hstore⟩
        have hlarger := Script.size_lt_of_new hlenient
          (if stub.flags.isStatic then none else some (s.intern outer).1) { store := s } hl
          (Script.classBody id (some (s.intern outer).1) stub)
        rw [Frame.bind_of_ok hasked] at hst
        rw [hst, hstore] at hlarger
        exact absurd hlarger (lt_irrefl _)
      · rintro (⟨d, hknown, _⟩ | ⟨hf, _⟩)
        · simp [exactly, hl] at hknown
        · exact hf.elim
    | some d =>
      have hasked := Script.referenced_intern { store := s } hl
      have henclosing : enclosingIn s stub = if stub.flags.isStatic then none else some d := by
        rw [enclosingIn, hd, Option.bind_some, hl]
      have hbody :=
        Script.run_intern_iff hlenient (enclosingIn s stub) (Script.classBody id (some d) stub)
        { store := s } (a := decl)
      rw [Frame.bind_of_ok hasked, ← henclosing, hbody]
      constructor
      · exact fun h => Or.inl ⟨d, hl, h⟩
      · rintro (⟨d', hd', h⟩ | ⟨hf, _⟩)
        · obtain rfl := Option.some.inj (hl.symm.trans hd')
          exact h
        · exact hf.elim

end Settled

end JvmTypes.Loader
