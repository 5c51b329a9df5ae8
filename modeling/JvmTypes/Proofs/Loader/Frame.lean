import JvmTypes.Loader
import JvmTypes.Proofs.Scope.Walk
/-!
# Runs of the loader inside a frame

A frame is an invariant of the loader's state together with an order that its steps follow. What a
computation does inside a frame is told by a triple: where it starts, what holds if it ends well and
what if it fails. The rules here follow the structure of a computation, so that every conversion
needs one triple and no later proof unfolds one.
-/
namespace JvmTypes.Loader

/-- An invariant and an order on states. Every store on the way is sound and grows. -/
structure Frame where
  inv : State → Prop
  le : State → State → Prop
  refl : ∀ st, le st st
  trans : ∀ {st st' st''}, le st st' → le st' st'' → le st st''
  sound : ∀ {st}, inv st → st.store.Sound
  grows : ∀ {st st'}, le st st' → st.store.Grows st'.store
  drop : ∀ {st} (dropped), inv st → inv { st with dropped := dropped } ∧
    le st { st with dropped := dropped }

/-- Started in `st`, the computation stays inside the frame; its end satisfies `ok` or `bad`. -/
structure Frame.Runs (F : Frame) (m : Load ε α) (st : State) (ok : α → State → Prop)
    (bad : ε → State → Prop) :
    Prop where
  inv : F.inv (m st).2
  le : F.le st (m st).2
  ok : ∀ a, (m st).1 = .ok a → ok a (m st).2
  bad : ∀ e, (m st).1 = .error e → bad e (m st).2

namespace Frame

variable {F : Frame} {st : State} {m : Load ε α} {ok : α → State → Prop} {bad : ε → State → Prop}

theorem Runs.imp {ok' : α → State → Prop} {bad' : ε → State → Prop} (h : F.Runs m st ok bad)
    (hok : ∀ a st', F.inv st' → F.le st st' → ok a st' → ok' a st')
    (hbad : ∀ e st', F.inv st' → F.le st st' → bad e st' → bad' e st') : F.Runs m st ok' bad' :=
  ⟨h.inv, h.le, fun a ha => hok a _ h.inv h.le (h.ok a ha),
    fun e he => hbad e _ h.inv h.le (h.bad e he)⟩

theorem Runs.of_ok {a : α} {st' : State} (heq : m st = (.ok a, st')) (hinv : F.inv st')
    (hle : F.le st st') (ha : ok a st') : F.Runs m st ok bad := by
  refine ⟨?_, ?_, ?_, ?_⟩ <;> rw [heq]
  · exact hinv
  · exact hle
  · intro b hb
    obtain rfl := Except.ok.inj hb
    exact ha
  · intro e he
    cases he

theorem Runs.of_error {e : ε} {st' : State} (heq : m st = (.error e, st')) (hinv : F.inv st')
    (hle : F.le st st') (he : bad e st') : F.Runs m st ok bad := by
  refine ⟨?_, ?_, ?_, ?_⟩ <;> rw [heq]
  · exact hinv
  · exact hle
  · intro a ha
    cases ha
  · intro e' he'
    obtain rfl := Except.error.inj he'
    exact he

theorem Runs.eq_ok {a : α} {st' : State} (h : F.Runs m st ok bad) (heq : m st = (.ok a, st')) :
    F.inv st' ∧ F.le st st' ∧ ok a st' := by
  obtain ⟨hinv, hle, hok, _⟩ := h
  rw [heq] at hinv hle hok
  exact ⟨hinv, hle, hok a rfl⟩

theorem Runs.eq_error {e : ε} {st' : State} (h : F.Runs m st ok bad)
    (heq : m st = (.error e, st')) :
    F.inv st' ∧ F.le st st' ∧ bad e st' := by
  obtain ⟨hinv, hle, _, hbad⟩ := h
  rw [heq] at hinv hle hbad
  exact ⟨hinv, hle, hbad e rfl⟩

theorem runs_pure {a : α} (h : F.inv st) (ha : ok a st) : F.Runs (pure a : Load ε α) st ok bad :=
  .of_ok rfl h (F.refl st) ha

theorem runs_throw {e : ε} (h : F.inv st) (he : bad e st) : F.Runs (throw e : Load ε α) st ok bad :=
  .of_error rfl h (F.refl st) he

theorem bind_ok {f : α → Load ε β} {a : α} (h : (m st).1 = .ok a) :
    (m >>= f) st = f a (m st).2 := by
  change (ExceptT.bindCont f (m st).1 : StateM State (Except ε β)) (m st).2 = _
  rw [h]
  rfl

theorem bind_error {f : α → Load ε β} {e : ε} (h : (m st).1 = .error e) :
    (m >>= f) st = (.error e, (m st).2) := by
  change (ExceptT.bindCont f (m st).1 : StateM State (Except ε β)) (m st).2 = _
  rw [h]
  rfl

theorem bind_of_ok {f : α → Load ε β} {a : α} {st' : State} (h : m st = (.ok a, st')) :
    (m >>= f) st = f a st' := by
  rw [bind_ok (by rw [h]), h]

theorem bind_of_error {f : α → Load ε β} {e : ε} {st' : State} (h : m st = (.error e, st')) :
    (m >>= f) st = (.error e, st') := by
  rw [bind_error (by rw [h]), h]

theorem bind_congr_of_ok {f g : α → Load ε β} (h : ∀ a st, (m st).1 = .ok a → f a = g a) :
    m >>= f = m >>= g := by
  funext st
  cases hm : (m st).1 with
  | ok a => rw [bind_ok hm, bind_ok hm, h a st hm]
  | error e => rw [bind_error hm, bind_error hm]

theorem Runs.bind {f : α → Load ε β} {ok' : β → State → Prop} (h : F.Runs m st ok bad)
    (hf : ∀ a st', F.inv st' → F.le st st' → ok a st' → F.Runs (f a) st' ok' bad) :
    F.Runs (m >>= f) st ok' bad := by
  rcases hm : m st with ⟨e | a, st'⟩
  · obtain ⟨hinv, hle, hbad⟩ := h.eq_error hm
    exact .of_error (bind_of_error hm) hinv hle hbad
  · obtain ⟨hinv, hle, hok⟩ := h.eq_ok hm
    have hrest := hf a st' hinv hle hok
    have heq : (m >>= f) st = f a st' := bind_of_ok hm
    rcases hr : f a st' with ⟨e | b, st''⟩
    · obtain ⟨hinv', hle', hbad⟩ := hrest.eq_error hr
      exact .of_error (heq.trans hr) hinv' (F.trans hle hle') hbad
    · obtain ⟨hinv', hle', hok'⟩ := hrest.eq_ok hr
      exact .of_ok (heq.trans hr) hinv' (F.trans hle hle') hok'

theorem runs_getStore (h : F.inv st) :
    F.Runs (getStore : Load ε Store) st (fun s st' => s = st'.store ∧ st' = st) bad :=
  .of_ok rfl h (F.refl st) ⟨rfl, rfl⟩

theorem runs_settle {config : Config} {owner : String} {conversion : Load SignatureFault α}
    {bad : LoadError → State → Prop} {fault : SignatureFault → State → Prop}
    {ok' : Option α → State → Prop} (h : F.Runs conversion st ok fault)
    (hok : ∀ a st', F.inv st' → F.le st st' → ok a st' → ok' (some a) st')
    (hdrop : config.strict = false → ∀ f st', F.inv st' → F.le st st' → fault f st' →
      ok' none { st' with dropped := st'.dropped ++ [(owner, f)] })
    (hstrict : config.strict = true → ∀ f st', F.inv st' → F.le st st' → fault f st' →
      bad (.malformedSignature owner f) st') :
    F.Runs (settle config owner conversion) st ok' bad := by
  rcases hm : conversion st with ⟨f | a, st'⟩
  · obtain ⟨hinv, hle, hf⟩ := h.eq_error hm
    cases hs : config.strict with
    | true =>
      refine .of_error ?_ hinv hle (hstrict hs f st' hinv hle hf)
      simp only [settle, hm, hs, if_true]
    | false =>
      have hdropped := F.drop (st'.dropped ++ [(owner, f)]) hinv
      refine .of_ok ?_ hdropped.1 (F.trans hle hdropped.2) (hdrop hs f st' hinv hle hf)
      simp only [settle, hm, hs, Bool.false_eq_true, if_false]
  · obtain ⟨hinv, hle, ha⟩ := h.eq_ok hm
    refine .of_ok ?_ hinv hle (hok a st' hinv hle ha)
    simp only [settle, hm]

end Frame

end JvmTypes.Loader
