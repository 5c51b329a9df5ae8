import JvmTypes.Proofs.Loader.ConversionScript
/-!
# Runs of scripts

Inside a frame, what the loader makes of a script is what the answers of the state in which it ends
make of it. An answer that was given once has to stay one. The classes that the script asks for on
its way account for what the run adds to the store.
-/
namespace JvmTypes.Loader

namespace Frame

variable {F : Frame} {α : Type} {st : State}

theorem runs_wrapped {m : Load LoadError α} {ok : α → State → Prop}
    {bad : SignatureFault → State → Prop} (h : F.Runs m st ok fun e st' => bad (.reference e) st') :
    F.Runs (wrapped m) st ok bad := by
  rcases hm : m st with ⟨e | a, st'⟩
  · obtain ⟨hinv, hle, hbad⟩ := h.eq_error hm
    exact .of_error (by simp only [wrapped, hm]) hinv hle hbad
  · obtain ⟨hinv, hle, hok⟩ := h.eq_ok hm
    exact .of_ok (by simp only [wrapped, hm]) hinv hle hok

theorem runs_of_wrapped {m : Load LoadError α} {ok : α → State → Prop} {bad : State → Prop}
    (h : F.Runs (wrapped m) st ok fun _ st' => bad st') : F.Runs m st ok fun _ st' => bad st' := by
  rcases hm : m st with ⟨e | a, st'⟩
  · have heq : wrapped m st = (.error (.reference e), st') := by simp only [wrapped, hm]
    obtain ⟨hinv, hle, hbad⟩ := h.eq_error heq
    exact .of_error hm hinv hle hbad
  · have heq : wrapped m st = (.ok a, st') := by simp only [wrapped, hm]
    obtain ⟨hinv, hle, hok⟩ := h.eq_ok heq
    exact .of_ok hm hinv hle hok

/-- What is asked for accounts for the way from one store to another, as it does for longer ways. -/
structure Accounting (faulty : Prop) (acc : Store → List String → Store → Prop) : Prop where
  nil : ∀ s, acc s [] s
  append : ∀ s front t rest u, t.Grows u → acc s front t → acc t rest u → acc s (front ++ rest) u
  faulty : faulty → ∀ s names t, acc s names t

def Keeps (F : Frame) (A : State → Answers) (st : State) : Prop :=
  ∀ st₁ st₂, F.inv st₁ → F.inv st₂ → F.le st st₁ → F.le st₁ st₂ → (A st₁).Le (A st₂)

theorem Keeps.later {A : State → Answers} {st₁ : State} (h : F.Keeps A st)
    (hle : F.le st st₁) : F.Keeps A st₁ :=
  fun st₂ st₃ h₂ h₃ hle₂ => h st₂ st₃ h₂ h₃ (F.trans hle hle₂)

section Scripts

variable {A : State → Answers} {W : String → State → Prop}
  {acc : Store → List String → Store → Prop} {resolve : Resolver} {config : Config}
  {enclosing : Option ClassId}

/-- From the state on, the script asks for wanted names only, and for type variables that are what
the enclosing class sees. -/
structure Serves (F : Frame) (A : State → Answers) (W : String → State → Prop)
    (enclosing : Option ClassId) (p : Script α) (st : State) : Prop where
  keeps : F.Keeps A st
  cls : ∀ name st', F.inv st' → F.le st st' → p.Asks (A st') (.cls name) → W name st'
  var : ∀ symbol st', F.inv st' → F.le st st' → p.Asks (A st') (.var symbol) →
    (A st').var symbol (seenFrom st'.store enclosing symbol)

theorem Serves.part {p : Script α} {q : Script β} {st₁ : State} (h : F.Serves A W enclosing p st)
    (hle : F.le st st₁)
    (hasks : ∀ question st', F.inv st' → F.le st₁ st' → q.Asks (A st') question →
      p.Asks (A st') question) : F.Serves A W enclosing q st₁ where
  keeps := h.keeps.later hle
  cls name st' hinv hle' ha := h.cls name st' hinv (F.trans hle hle') (hasks _ st' hinv hle' ha)
  var symbol st' hinv hle' ha :=
    h.var symbol st' hinv (F.trans hle hle') (hasks _ st' hinv hle' ha)

def Tells (A : State → Answers) (acc : Store → List String → Store → Prop) (p : Script α)
    (st : State) (r : Option α) (st' : State) : Prop :=
  ∃ names, p.Trace (A st') r names ∧ acc st.store names st'.store

variable (hacc : ∀ st, Accounting (A st).faulty acc)
include hacc

/-- What a script asks for first and what its rest asks for account for the whole way. -/
theorem Runs.prepend {p q : Script α} {m : Load SignatureFault α} {st₁ : State}
    {front : List String} (hfront : acc st.store front st₁.store)
    (htrace : ∀ r rest st', F.inv st' → F.le st₁ st' → q.Trace (A st') r rest →
      p.Trace (A st') r (front ++ rest))
    (h : F.Runs m st₁ (fun a => Tells A acc q st₁ (some a)) fun _ => Tells A acc q st₁ none) :
    F.Runs m st₁ (fun a => Tells A acc p st (some a)) fun _ => Tells A acc p st none := by
  have hwhole : ∀ r st', F.inv st' → F.le st₁ st' → Tells A acc q st₁ r st' →
      Tells A acc p st r st' := by
    rintro r st' hinv hle ⟨rest, hrest, hway⟩
    exact ⟨front ++ rest, htrace r rest st' hinv hle hrest,
      (hacc st').append _ front _ rest _ (F.grows hle) hfront hway⟩
  exact h.imp (fun a => hwhole (some a)) fun _ => hwhole none

variable (hresolve : ∀ name st, F.inv st → W name st →
  F.Runs (resolve name) st (fun id st' => (A st').cls name id ∧ acc st.store [name] st'.store)
    fun _ st' => (A st').faulty)
  (hstrict : config.strict = true → ∀ st, (A st).faulty)

include hresolve in
theorem runs_askClass {name : String} {next : ClassId → Script α} (hst : F.inv st)
    (h : F.Serves A W enclosing (.askClass name next) st)
    (ih : ∀ id st₁, F.inv st₁ → F.Serves A W enclosing (next id) st₁ →
      F.Runs ((next id).run resolve config enclosing) st₁
        (fun a => Tells A acc (next id) st₁ (some a)) fun _ => Tells A acc (next id) st₁ none) :
    F.Runs ((Script.askClass name next).run resolve config enclosing) st
      (fun a => Tells A acc (.askClass name next) st (some a))
      fun _ => Tells A acc (.askClass name next) st none := by
  rw [Script.run, ← wrapped_resolve]
  have hask : F.Runs (wrapped (resolve name)) st
      (fun id st' => (A st').cls name id ∧ acc st.store [name] st'.store)
      fun _ => Tells A acc (.askClass name next) st none :=
    runs_wrapped ((hresolve name st hst (h.cls name st hst (F.refl st) (Or.inl rfl))).imp
      (fun _ _ _ _ h => h)
      fun _ st' _ _ hf => ⟨[name], Or.inr ⟨hf, rfl⟩, (hacc st').faulty hf _ _ _⟩)
  refine hask.bind ?_
  rintro id st₁ hinv₁ hle₁ ⟨hid, hfront⟩
  have hlater : ∀ st', F.inv st' → F.le st₁ st' → (A st').cls name id :=
    fun st' hinv' hle' => (h.keeps st₁ st' hinv₁ hinv' hle₁ hle').cls name id hid
  have hnext : F.Serves A W enclosing (next id) st₁ :=
    h.part hle₁ fun _ st' hinv' hle' hasks => Or.inr ⟨id, hlater st' hinv' hle', hasks⟩
  exact (ih id st₁ hinv₁ hnext).prepend hacc hfront fun r rest st' hinv' hle' htrace =>
    Or.inl ⟨id, rest, hlater st' hinv' hle', rfl, htrace⟩

theorem runs_askVariable {symbol : String} {next : Option TypeVariable → Script α} (hst : F.inv st)
    (h : F.Serves A W enclosing (.askVariable symbol next) st)
    (ih : ∀ v st₁, F.inv st₁ → F.Serves A W enclosing (next v) st₁ →
      F.Runs ((next v).run resolve config enclosing) st₁
        (fun a => Tells A acc (next v) st₁ (some a)) fun _ => Tells A acc (next v) st₁ none) :
    F.Runs ((Script.askVariable symbol next).run resolve config enclosing) st
      (fun a => Tells A acc (.askVariable symbol next) st (some a))
      fun _ => Tells A acc (.askVariable symbol next) st none := by
  rw [Script.run]
  refine Runs.bind (runs_getStore hst) ?_
  rintro _ st₁ hinv₁ hle₁ ⟨rfl, rfl⟩
  have hseen := h.var symbol st₁ hinv₁ hle₁ (Or.inl rfl)
  have hlater : ∀ st', F.inv st' → F.le st₁ st' →
      (A st').var symbol (seenFrom st₁.store enclosing symbol) :=
    fun st' hinv' hle' => (h.keeps st₁ st' hinv₁ hinv' hle₁ hle').var symbol _ hseen
  have hnext : F.Serves A W enclosing (next (seenFrom st₁.store enclosing symbol)) st₁ :=
    h.part hle₁ fun _ st' hinv' hle' hasks => Or.inr ⟨_, hlater st' hinv' hle', hasks⟩
  exact (ih _ st₁ hinv₁ hnext).prepend hacc ((hacc st₁).nil _) fun r rest st' hinv' hle' htrace =>
    ⟨_, hlater st' hinv' hle', htrace⟩

include hstrict in
theorem runs_attempt {owner : String} {signature : Script β} {next : Option β → Script α}
    (h : F.Serves A W enclosing (.attempt owner signature next) st)
    (hsignature : F.Runs (signature.run resolve config enclosing) st
      (fun b => Tells A acc signature st (some b)) fun _ => Tells A acc signature st none)
    (ih : ∀ b st₁, F.inv st₁ → F.Serves A W enclosing (next b) st₁ →
      F.Runs ((next b).run resolve config enclosing) st₁
        (fun a => Tells A acc (next b) st₁ (some a)) fun _ => Tells A acc (next b) st₁ none) :
    F.Runs ((Script.attempt owner signature next).run resolve config enclosing) st
      (fun a => Tells A acc (.attempt owner signature next) st (some a))
      fun _ => Tells A acc (.attempt owner signature next) st none := by
  rw [Script.run]
  have hsettle : F.Runs (settle config owner (signature.run resolve config enclosing)) st
      (fun b => Tells A acc signature st b) fun _ st' => (A st').faulty := by
    refine runs_settle hsignature ?_ ?_ ?_
    · exact fun b st' _ _ htells => htells
    · rintro _ f st' hinv' hle' ⟨front, htrace, hfront⟩
      obtain ⟨hinv, hle⟩ := F.drop (st'.dropped ++ [(owner, f)]) hinv'
      exact ⟨front, htrace.mono (h.keeps _ _ hinv' hinv hle' hle), hfront⟩
    · exact fun hs _ st' _ _ _ => hstrict hs st'
  have hwrapped : F.Runs
      (wrapped (settle config owner (signature.run resolve config enclosing))) st
      (fun b => Tells A acc signature st b)
      fun _ => Tells A acc (.attempt owner signature next) st none :=
    runs_wrapped (hsettle.imp (fun _ _ _ _ htells => htells)
      fun _ st' _ _ hf => ⟨[], Or.inr ⟨hf, rfl⟩, (hacc st').faulty hf _ _ _⟩)
  refine hwrapped.bind ?_
  rintro b st₁ hinv₁ hle₁ ⟨front, hb, hfront⟩
  have hlater : ∀ st', F.inv st' → F.le st₁ st' → signature.Trace (A st') b front :=
    fun st' hinv' hle' => hb.mono (h.keeps st₁ st' hinv₁ hinv' hle₁ hle')
  have hnext : F.Serves A W enclosing (next b) st₁ :=
    h.part hle₁ fun _ st' hinv' hle' hasks => Or.inr ⟨b, (hlater st' hinv' hle').ends, hasks⟩
  exact (ih b st₁ hinv₁ hnext).prepend hacc hfront fun r rest st' hinv' hle' htrace =>
    Or.inl ⟨b, front, rest, hlater st' hinv' hle', htrace, rfl⟩

include hresolve hstrict in
theorem runs_script (p : Script α) (hst : F.inv st) (h : F.Serves A W enclosing p st) :
    F.Runs (p.run resolve config enclosing) st (fun a => Tells A acc p st (some a))
      fun _ => Tells A acc p st none := by
  induction p generalizing st with
  | done a => exact runs_pure hst ⟨[], ⟨rfl, rfl⟩, (hacc st).nil _⟩
  | fail fault => exact runs_throw hst ⟨[], ⟨rfl, rfl⟩, (hacc st).nil _⟩
  | askClass name next ih => exact runs_askClass hacc hresolve hst h fun id _ => ih id
  | askVariable symbol next ih => exact runs_askVariable hacc hst h fun v _ => ih v
  | attempt owner signature next ihs ihn =>
    have hpart : F.Serves A W enclosing signature st :=
      h.part (F.refl st) fun _ _ _ _ hasks => Or.inl hasks
    exact runs_attempt hacc hstrict h (ihs hst hpart) fun b _ => ihn b

end Scripts

end Frame

end JvmTypes.Loader
