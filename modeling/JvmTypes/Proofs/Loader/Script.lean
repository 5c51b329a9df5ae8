import JvmTypes.Proofs.Loader.Frame
/-!
# Conversions by what they ask for

A conversion depends on the store only through the places of classes and the type variables of the
classes around a declaration. A script is a conversion with these questions laid open, so that a
fact about every conversion is proved once, by induction over scripts. The loader runs a script; a
script also ends, without a loader, in what answers to its questions make of it.
-/
namespace JvmTypes.Loader

inductive Script : Type → Type 1 where
  | done (a : α) : Script α
  | fail (fault : SignatureFault) : Script α
  /-- The place of the class with this binary name. -/
  | askClass (name : String) (next : ClassId → Script α) : Script α
  /-- The type variable of the classes around the declaration, if one is called so. -/
  | askVariable (symbol : String) (next : Option TypeVariable → Script α) : Script α
  /-- What the signature of `owner` says, or nothing if it is given up. -/
  | attempt (owner : String) (signature : Script β) (next : Option β → Script α) : Script α

def wrapped (m : Load LoadError α) : Load SignatureFault α := fun st =>
  match m st with
  | (.ok a, st) => (.ok a, st)
  | (.error error, st) => (.error (.reference error), st)

def seenFrom (s : Store) (enclosing : Option ClassId) : Scope := fun symbol =>
  enclosing.bind fun outer => Scope.ofClass s outer symbol

theorem wrapped_apply (m : Load LoadError α) (st : State) :
    wrapped m st = ((m st).1.mapError .reference, (m st).2) := by
  rcases hm : m st with ⟨e | a, st'⟩ <;> simp only [wrapped, hm, Except.mapError]

theorem wrapped_pure (a : α) : wrapped (pure a) = pure a := rfl

theorem wrapped_resolve (resolve : Resolver) (name : String) :
    wrapped (resolve name) = referenced resolve name := by
  funext st
  rcases h : resolve name st with ⟨e | id, st'⟩ <;> simp only [wrapped, referenced, h]

theorem wrapped_bind (m : Load LoadError α) (f : α → Load LoadError β) :
    wrapped (m >>= f) = wrapped m >>= fun a => wrapped (f a) := by
  funext st
  change (match (ExceptT.bindCont f (m st).1 : StateM State (Except LoadError β)) (m st).2 with
    | (.ok a, st) => (.ok a, st)
    | (.error error, st) => (.error (.reference error), st)) =
    (ExceptT.bindCont (fun a => wrapped (f a)) (wrapped m st).1 : StateM State _) (wrapped m st).2
  rcases hm : m st with ⟨e | a, st'⟩
  · simp only [wrapped, hm]
    rfl
  · simp only [wrapped, hm]
    rfl

theorem wrapped_mapM (f : α → Load LoadError β) (xs : List α) :
    wrapped (xs.mapM f) = xs.mapM fun x => wrapped (f x) := by
  induction xs with
  | nil =>
    rw [List.mapM_nil, List.mapM_nil]
    rfl
  | cons x xs ih =>
    simp only [List.mapM_cons, wrapped_bind, ih]
    rfl

namespace Script

variable {α β γ : Type}

def bind : Script α → (α → Script β) → Script β
  | .done a, f => f a
  | .fail fault, _ => .fail fault
  | .askClass name next, f => .askClass name fun id => (next id).bind f
  | .askVariable symbol next, f => .askVariable symbol fun v => (next v).bind f
  | .attempt owner signature next, f => .attempt owner signature fun b => (next b).bind f

instance : Monad Script where
  pure := .done
  bind := .bind

theorem bind_done (p : Script α) : p.bind .done = p := by
  induction p with
  | done a => rfl
  | fail fault => rfl
  | askClass name next ih => simp only [bind, ih]
  | askVariable symbol next ih => simp only [bind, ih]
  | attempt owner signature next _ ih => simp only [bind, ih]

theorem bind_bind (p : Script α) (f : α → Script β) (g : β → Script γ) :
    (p.bind f).bind g = p.bind fun a => (f a).bind g := by
  induction p with
  | done a => rfl
  | fail fault => rfl
  | askClass name next ih => simp only [bind, ih]
  | askVariable symbol next ih => simp only [bind, ih]
  | attempt owner signature next _ ih => simp only [bind, ih]

instance : LawfulMonad Script := LawfulMonad.mk' Script bind_done (fun _ _ => rfl) bind_bind

@[simp] theorem done_bind (a : α) (f : α → Script β) : ((.done a : Script α) >>= f) = f a := rfl
@[simp] theorem fail_bind (fault : SignatureFault) (f : α → Script β) :
    ((.fail fault : Script α) >>= f) = .fail fault :=
  rfl
@[simp] theorem askClass_bind (name : String) (next : ClassId → Script α) (f : α → Script β) :
    (askClass name next >>= f) = .askClass name fun id => next id >>= f := rfl
@[simp] theorem askVariable_bind (symbol : String) (next : Option TypeVariable → Script α)
    (f : α → Script β) :
    (askVariable symbol next >>= f) = .askVariable symbol fun v => next v >>= f := rfl
@[simp] theorem attempt_bind (owner : String) (signature : Script γ) (next : Option γ → Script α)
    (f : α → Script β) :
    (attempt owner signature next >>= f) = .attempt owner signature fun b => next b >>= f := rfl

section Running

variable (resolve : Resolver) (config : Config) (enclosing : Option ClassId)

/-- What the loader does at a script. -/
def run : {α : Type} → Script α → Load SignatureFault α
  | _, .done a => pure a
  | _, .fail fault => throw fault
  | _, .askClass name next => do
    let id ← referenced resolve name
    run (next id)
  | _, .askVariable symbol next => do
    let s ← getStore
    run (next (seenFrom s enclosing symbol))
  | _, .attempt owner signature next => do
    let b ← wrapped (settle config owner (run signature))
    run (next b)

theorem run_pure (a : α) : (pure a : Script α).run resolve config enclosing = pure a := rfl

theorem run_bind (p : Script α) (f : α → Script β) :
    (p >>= f).run resolve config enclosing =
      p.run resolve config enclosing >>= fun a => (f a).run resolve config enclosing := by
  induction p with
  | done a => simp [run]
  | fail fault => rfl
  | askClass name next ih => simp [run, ih]
  | askVariable symbol next ih => simp [run, ih]
  | attempt owner signature next _ ih => simp [run, ih]

theorem run_mapM (f : α → Script β) (xs : List α) :
    (xs.mapM f).run resolve config enclosing = xs.mapM fun x =>
      (f x).run resolve config enclosing := by
  induction xs with
  | nil =>
    rw [List.mapM_nil, List.mapM_nil]
    rfl
  | cons x xs ih =>
    rw [List.mapM_cons, List.mapM_cons, run_bind]
    congr 1
    funext y
    rw [run_bind, ih]
    rfl

end Running

end Script

theorem exists_of_mem_right {R : α → β → Prop} {xs : List α} {ys : List β}
    (h : List.Forall₂ R xs ys) {y : β} (hy : y ∈ ys) : ∃ x ∈ xs, R x y := by
  induction h with
  | nil => simp at hy
  | @cons x _ _ _ hr _ ih =>
    rcases List.mem_cons.mp hy with rfl | hy
    · exact ⟨x, by simp, hr⟩
    · obtain ⟨z, hz, hr⟩ := ih hy
      exact ⟨z, by simp [hz], hr⟩

/-- What the questions of a script may be answered. -/
structure Answers where
  cls : String → ClassId → Prop
  var : String → Option TypeVariable → Prop
  /-- A question for a class may fail, and a signature that is given up may end everything. -/
  faulty : Prop

inductive Question where
  | cls (name : String)
  | var (symbol : String)

structure Answers.Le (A B : Answers) : Prop where
  cls : ∀ name id, A.cls name id → B.cls name id
  var : ∀ symbol v, A.var symbol v → B.var symbol v
  faulty : A.faulty → B.faulty

def Answers.any : Answers := ⟨fun _ _ => True, fun _ _ => True, True⟩

/-- No question has two answers or fails. -/
structure Answers.Functional (A : Answers) : Prop where
  cls : ∀ name i j, A.cls name i → A.cls name j → i = j
  var : ∀ symbol v w, A.var symbol v → A.var symbol w → v = w
  safe : ¬ A.faulty

namespace Script

variable {α β : Type} {A B : Answers}

/-- The script can end with the result, or without one. -/
def Ends (A : Answers) : {α : Type} → Script α → Option α → Prop
  | _, .done a, r => r = some a
  | _, .fail _, r => r = none
  | _, .askClass name next, r => (∃ id, A.cls name id ∧ Ends A (next id) r) ∨ (A.faulty ∧ r = none)
  | _, .askVariable symbol next, r => ∃ v, A.var symbol v ∧ Ends A (next v) r
  | _, .attempt _ signature next, r =>
    (∃ b, Ends A signature b ∧ Ends A (next b) r) ∨ (A.faulty ∧ r = none)

/-- The script can come to ask the question. -/
def Asks (A : Answers) (q : Question) : {α : Type} → Script α → Prop
  | _, .done _ => False
  | _, .fail _ => False
  | _, .askClass name next => q = .cls name ∨ ∃ id, A.cls name id ∧ Asks A q (next id)
  | _, .askVariable symbol next => q = .var symbol ∨ ∃ v, A.var symbol v ∧ Asks A q (next v)
  | _, .attempt _ signature next => Asks A q signature ∨ ∃ b, Ends A signature b ∧ Asks A q (next b)

/-- The script ends so, and on the way it asks for the classes `names`, one after the other. -/
def Trace (A : Answers) : {α : Type} → Script α → Option α → List String → Prop
  | _, .done a, r, names => r = some a ∧ names = []
  | _, .fail _, r, names => r = none ∧ names = []
  | _, .askClass name next, r, names =>
    (∃ id rest, A.cls name id ∧ names = name :: rest ∧ Trace A (next id) r rest) ∨
      (A.faulty ∧ r = none)
  | _, .askVariable symbol next, r, names => ∃ v, A.var symbol v ∧ Trace A (next v) r names
  | _, .attempt _ signature next, r, names =>
    (∃ b front rest, Trace A signature b front ∧ Trace A (next b) r rest ∧ names = front ++ rest) ∨
      (A.faulty ∧ r = none)

theorem Trace.ends {p : Script α} {r : Option α} {names : List String} (h : p.Trace A r names) :
    p.Ends A r := by
  induction p generalizing names with
  | done a => exact h.1
  | fail fault => exact h.1
  | askClass name next ih =>
    rcases h with ⟨id, rest, hid, _, h⟩ | hf
    · exact Or.inl ⟨id, hid, ih id h⟩
    · exact Or.inr hf
  | askVariable symbol next ih =>
    obtain ⟨v, hv, h⟩ := h
    exact ⟨v, hv, ih v h⟩
  | attempt owner signature next ihs ihn =>
    rcases h with ⟨b, front, rest, hs, h, _⟩ | hf
    · exact Or.inl ⟨b, ihs hs, ihn b h⟩
    · exact Or.inr hf

theorem Trace.mono (h : A.Le B) {p : Script α} {r : Option α} {names : List String}
    (hp : p.Trace A r names) :
    p.Trace B r names := by
  induction p generalizing names with
  | done a => exact hp
  | fail fault => exact hp
  | askClass name next ih =>
    rcases hp with ⟨id, rest, hid, hnames, hp⟩ | ⟨hf, hr⟩
    · exact Or.inl ⟨id, rest, h.cls name id hid, hnames, ih id hp⟩
    · exact Or.inr ⟨h.faulty hf, hr⟩
  | askVariable symbol next ih =>
    obtain ⟨v, hv, hp⟩ := hp
    exact ⟨v, h.var symbol v hv, ih v hp⟩
  | attempt owner signature next ihs ihn =>
    rcases hp with ⟨b, front, rest, hs, hp, hnames⟩ | ⟨hf, hr⟩
    · exact Or.inl ⟨b, front, rest, ihs hs, ihn b hp, hnames⟩
    · exact Or.inr ⟨h.faulty hf, hr⟩

theorem Ends.mono (h : A.Le B) {p : Script α} {r : Option α} (hp : p.Ends A r) : p.Ends B r := by
  induction p with
  | done a => exact hp
  | fail fault => exact hp
  | askClass name next ih =>
    rcases hp with ⟨id, hid, hp⟩ | ⟨hf, hr⟩
    · exact Or.inl ⟨id, h.cls name id hid, ih id hp⟩
    · exact Or.inr ⟨h.faulty hf, hr⟩
  | askVariable symbol next ih =>
    obtain ⟨v, hv, hp⟩ := hp
    exact ⟨v, h.var symbol v hv, ih v hp⟩
  | attempt owner signature next ihs ihn =>
    rcases hp with ⟨b, hb, hp⟩ | ⟨hf, hr⟩
    · exact Or.inl ⟨b, ihs hb, ihn b hp⟩
    · exact Or.inr ⟨h.faulty hf, hr⟩

theorem Asks.mono (h : A.Le B) {q : Question} {p : Script α} (hp : p.Asks A q) : p.Asks B q := by
  induction p with
  | done a => exact hp
  | fail fault => exact hp
  | askClass name next ih =>
    rcases hp with hq | ⟨id, hid, hp⟩
    · exact Or.inl hq
    · exact Or.inr ⟨id, h.cls name id hid, ih id hp⟩
  | askVariable symbol next ih =>
    rcases hp with hq | ⟨v, hv, hp⟩
    · exact Or.inl hq
    · exact Or.inr ⟨v, h.var symbol v hv, ih v hp⟩
  | attempt owner signature next ihs ihn =>
    rcases hp with hp | ⟨b, hb, hp⟩
    · exact Or.inl (ihs hp)
    · exact Or.inr ⟨b, hb.mono h, ihn b hp⟩

@[simp] theorem ends_pure {a : α} {r : Option α} : (pure a : Script α).Ends A r ↔ r = some a :=
  Iff.rfl
@[simp] theorem ends_done {a : α} {r : Option α} : (done a).Ends A r ↔ r = some a := Iff.rfl
@[simp] theorem ends_fail {fault : SignatureFault} {r : Option α} :
    (fail fault : Script α).Ends A r ↔ r = none :=
  Iff.rfl

theorem ends_bind {p : Script α} {f : α → Script β} {r : Option β} :
    (p >>= f).Ends A r ↔ (∃ a, p.Ends A (some a) ∧ (f a).Ends A r) ∨
      (p.Ends A none ∧ r = none) := by
  induction p with
  | done a => simp
  | fail fault => simp
  | askClass name next ih =>
    simp only [askClass_bind, Ends, ih]
    grind
  | askVariable symbol next ih =>
    simp only [askVariable_bind, Ends, ih]
    grind
  | attempt owner signature next _ ih =>
    simp only [attempt_bind, Ends, ih]
    grind

theorem ends_bind_some {p : Script α} {f : α → Script β} {b : β} :
    (p >>= f).Ends A (some b) ↔ ∃ a, p.Ends A (some a) ∧ (f a).Ends A (some b) := by
  simp [ends_bind]

theorem ends_mapM_some {f : α → Script β} {xs : List α} {ys : List β} :
    (xs.mapM f).Ends A (some ys) ↔ List.Forall₂ (fun x y => (f x).Ends A (some y)) xs ys := by
  induction xs generalizing ys with
  | nil => simp [List.mapM_nil]
  | cons x xs ih =>
    simp only [List.mapM_cons, ends_bind_some, ends_pure, Option.some.injEq, ih]
    constructor
    · rintro ⟨y, hy, ys', hys, rfl⟩
      exact .cons hy hys
    · intro h
      cases h with
      | cons hy hys => exact ⟨_, hy, _, hys, rfl⟩

theorem ends_mapM_mem {f : α → Script β} {xs : List α} {ys : List β}
    (h : (xs.mapM f).Ends A (some ys)) :
    ∀ y ∈ ys, ∃ x ∈ xs, (f x).Ends A (some y) :=
  fun _ hy => exists_of_mem_right (ends_mapM_some.mp h) hy

theorem Ends.unique (hA : A.Functional) {p : Script α} {r r' : Option α} (h : p.Ends A r)
    (h' : p.Ends A r') :
    r = r' := by
  induction p with
  | done a => exact h.trans h'.symm
  | fail fault => exact h.trans h'.symm
  | askClass name next ih =>
    rcases h with ⟨i, hi, h⟩ | ⟨hf, _⟩
    · rcases h' with ⟨j, hj, h'⟩ | ⟨hf, _⟩
      · obtain rfl := hA.cls name i j hi hj
        exact ih i h h'
      · exact absurd hf hA.safe
    · exact absurd hf hA.safe
  | askVariable symbol next ih =>
    obtain ⟨v, hv, h⟩ := h
    obtain ⟨w, hw, h'⟩ := h'
    obtain rfl := hA.var symbol v w hv hw
    exact ih v h h'
  | attempt owner signature next ihs ihn =>
    rcases h with ⟨b, hb, h⟩ | ⟨hf, _⟩
    · rcases h' with ⟨c, hc, h'⟩ | ⟨hf, _⟩
      · obtain rfl := ihs hb hc
        exact ihn b h h'
      · exact absurd hf hA.safe
    · exact absurd hf hA.safe

theorem Asks.answered (hA : A.Functional) {p : Script α} {r : Option α} {name : String}
    (h : p.Ends A r) (hq : p.Asks A (.cls name)) : ∃ id, A.cls name id := by
  induction p with
  | done a => exact hq.elim
  | fail fault => exact hq.elim
  | askClass n next ih =>
    rcases h with ⟨i, hi, h⟩ | ⟨hf, _⟩
    · rcases hq with hq | ⟨j, hj, hq⟩
      · obtain rfl := Question.cls.inj hq
        exact ⟨i, hi⟩
      · obtain rfl := hA.cls n i j hi hj
        exact ih i h hq
    · exact absurd hf hA.safe
  | askVariable symbol next ih =>
    obtain ⟨v, hv, h⟩ := h
    rcases hq with hq | ⟨w, hw, hq⟩
    · cases hq
    · obtain rfl := hA.var symbol v w hv hw
      exact ih v h hq
  | attempt owner signature next ihs ihn =>
    rcases h with ⟨b, hb, h⟩ | ⟨hf, _⟩
    · rcases hq with hq | ⟨c, hc, hq⟩
      · exact ihs hb hq
      · obtain rfl := hb.unique hA hc
        exact ihn b h hq
    · exact absurd hf hA.safe

/-- What the loader makes of a script is one of its ends. -/
theorem ends_run (resolve : Resolver) (config : Config) (enclosing : Option ClassId) (p : Script α)
    (st : State) :
    p.Ends .any (p.run resolve config enclosing st).1.toOption := by
  induction p generalizing st with
  | done a => rfl
  | fail fault => rfl
  | askClass name next ih =>
    rw [run]
    cases h : (referenced resolve name st).1 with
    | ok id =>
      rw [Frame.bind_ok h]
      exact Or.inl ⟨id, trivial, ih id _⟩
    | error e =>
      rw [Frame.bind_error h]
      exact Or.inr ⟨trivial, rfl⟩
  | askVariable symbol next ih =>
    rw [run, Frame.bind_ok (a := st.store) rfl]
    exact ⟨_, trivial, ih _ _⟩
  | attempt owner signature next ihs ihn =>
    rw [run]
    cases h : (wrapped (settle config owner (signature.run resolve config enclosing)) st).1 with
    | ok b =>
      rw [Frame.bind_ok h]
      refine Or.inl ⟨b, ?_, ihn b _⟩
      have hs := ihs st
      rcases hm : signature.run resolve config enclosing st with ⟨f | a, st'⟩ <;> rw [hm] at hs <;>
        cases hc : config.strict <;> simp [wrapped, settle, hm, hc] at h <;> subst h <;> exact hs
    | error e =>
      rw [Frame.bind_error h]
      exact Or.inr ⟨trivial, rfl⟩

theorem ends_of_run {resolve : Resolver} {config : Config} {enclosing : Option ClassId}
    {p : Script α} {st : State} {a : α} (h : (p.run resolve config enclosing st).1 = .ok a) :
    p.Ends .any (some a) := by
  have hends := ends_run resolve config enclosing p st
  rw [h] at hends
  exact hends

end Script

end JvmTypes.Loader
