import JvmTypes.Proofs.Loader.Script
import JvmTypes.Proofs.Shape.Renaming
/-!
# Scripts that go on alike

Two scripts are uniform if they ask the same questions and go on alike wherever the answers to one
are those to the other with the classes renamed. A conversion that never looks into a place is
uniform with itself.
-/
namespace JvmTypes.Loader.Script

/-- `r` takes the results of one script to those of the other. Where a variable is not found both
give up. Only a script that `tries` may attempt signatures, which themselves do not. -/
inductive Uniform (ρ : ClassId → ClassId) :
    Bool → {α β : Type} → (α → β) → Script α → Script β → Prop
  | done {tries : Bool} {α β : Type} {r : α → β} (a : α) : Uniform ρ tries r (.done a) (.done (r a))
  | fail {tries : Bool} {α β : Type} {r : α → β} (fault : SignatureFault) :
      Uniform ρ tries r (.fail fault) (.fail fault)
  | askClass {tries : Bool} {α β : Type} {r : α → β} {name : String} {next : ClassId → Script α}
      {next' : ClassId → Script β} (h : ∀ id, Uniform ρ tries r (next id) (next' (ρ id))) :
      Uniform ρ tries r (.askClass name next) (.askClass name next')
  | askVariable {tries : Bool} {α β : Type} {r : α →
      β} {symbol : String} {next : Option TypeVariable → Script α}
      {next' : Option TypeVariable →
        Script β} {fault : SignatureFault} (hnone : next none = .fail fault)
      (h : ∀ v, Uniform ρ tries r (next v) (next' (v.map (TypeVariable.rename ρ)))) :
      Uniform ρ tries r (.askVariable symbol next) (.askVariable symbol next')
  | attempt {α β γ δ : Type} {r : α → β} {q : γ → δ} {owner : String} {signature : Script γ}
      {signature' : Script δ} {next : Option γ → Script α} {next' : Option δ → Script β}
      (hs : Uniform ρ false q signature signature')
        (h : ∀ b, Uniform ρ true r (next b) (next' (b.map q))) :
      Uniform ρ true r (.attempt owner signature next) (.attempt owner signature' next')

namespace Uniform

variable {ρ : ClassId → ClassId} {tries : Bool} {α β γ δ : Type}

theorem pure {r : α → β} {a : α} {b : β} (h : b = r a) :
    Uniform ρ tries r (pure a : Script α) (pure b : Script β) := by
  rw [h]
  exact .done a

theorem bind {r : α → β} {q : γ → δ} {p : Script α} {p' : Script β} {f : α → Script γ}
    {f' : β → Script δ} (h : Uniform ρ tries r p p')
    (hf : ∀ a, Uniform ρ tries q (f a) (f' (r a))) :
    Uniform ρ tries q (p >>= f) (p' >>= f') := by
  induction h with
  | done a => exact hf a
  | fail fault => exact .fail fault
  | askClass _ ih => exact .askClass fun id => ih id hf
  | @askVariable _ _ _ _ _ next _ fault hnone _ ih =>
    have hgives : next none >>= f = .fail fault := by rw [hnone, fail_bind]
    exact .askVariable hgives fun v => ih v hf
  | attempt hs _ _ ih => exact .attempt hs fun b => ih b hf

theorem mapM {r : β → δ} {f : α → Script β} {f' : α → Script δ}
    (h : ∀ x, Uniform ρ tries r (f x) (f' x)) (xs : List α) :
    Uniform ρ tries (List.map r) (xs.mapM f) (xs.mapM f') := by
  induction xs with
  | nil =>
    rw [List.mapM_nil, List.mapM_nil]
    exact pure rfl
  | cons x xs ih =>
    rw [List.mapM_cons, List.mapM_cons]
    refine (h x).bind fun y => ?_
    refine ih.bind fun ys => ?_
    exact pure rfl

section Ends

variable {A B : Answers} {r : α → β} {p : Script α} {p' : Script β}

theorem ends (h : Uniform ρ tries r p p') (hcls : ∀ name id, A.cls name id → B.cls name (ρ id))
    (hvar : ∀ symbol v, A.var symbol v → B.var symbol (v.map (TypeVariable.rename ρ)))
    (hfaulty : A.faulty → B.faulty) {a : Option α} (ha : p.Ends A a) : p'.Ends B (a.map r) := by
  induction h with
  | done x =>
    obtain rfl : a = some x := ha
    rfl
  | fail fault =>
    obtain rfl : a = none := ha
    rfl
  | askClass _ ih =>
    rcases ha with ⟨id, hid, ha⟩ | ⟨hf, rfl⟩
    · exact Or.inl ⟨ρ id, hcls _ _ hid, ih id ha⟩
    · exact Or.inr ⟨hfaulty hf, rfl⟩
  | askVariable _ _ ih =>
    obtain ⟨v, hv, ha⟩ := ha
    exact ⟨_, hvar _ v hv, ih v ha⟩
  | attempt _ _ ihs ih =>
    rcases ha with ⟨b, hb, ha⟩ | ⟨hf, rfl⟩
    · exact Or.inl ⟨_, ihs hb, ih b ha⟩
    · exact Or.inr ⟨hfaulty hf, rfl⟩

/-- Two scripts that both end, with answers that correspond, ask for the same classes and end
alike. -/
theorem unique (h : Uniform ρ tries r p p')
    (hcls : ∀ name i j, A.cls name i → B.cls name j → j = ρ i)
    (hvar : ∀ symbol v w, A.var symbol v → B.var symbol w → w = v.map (TypeVariable.rename ρ))
    (hA : ¬ A.faulty) (hB : ¬ B.faulty) {a : Option α} {b : Option β} (ha : p.Ends A a)
    (hb : p'.Ends B b) :
    b = a.map r := by
  induction h with
  | done x =>
    obtain rfl : a = some x := ha
    exact hb
  | fail fault =>
    obtain rfl : a = none := ha
    exact hb
  | askClass _ ih =>
    rcases ha with ⟨i, hi, ha⟩ | ⟨hf, _⟩
    · rcases hb with ⟨j, hj, hb⟩ | ⟨hf, _⟩
      · obtain rfl := hcls _ i j hi hj
        exact ih i ha hb
      · exact absurd hf hB
    · exact absurd hf hA
  | askVariable _ _ ih =>
    obtain ⟨v, hv, ha⟩ := ha
    obtain ⟨w, hw, hb⟩ := hb
    obtain rfl := hvar _ v w hv hw
    exact ih v ha hb
  | attempt _ _ ihs ih =>
    rcases ha with ⟨x, hx, ha⟩ | ⟨hf, _⟩
    · rcases hb with ⟨y, hy, hb⟩ | ⟨hf, _⟩
      · obtain rfl := ihs hx hy
        exact ih x ha hb
      · exact absurd hf hB
    · exact absurd hf hA

theorem asks (h : Uniform ρ tries r p p') (hcls : ∀ name i j, A.cls name i → B.cls name j → j = ρ i)
    (hvar : ∀ symbol v w, A.var symbol v → B.var symbol w → w = v.map (TypeVariable.rename ρ))
    (hA : A.Functional) (hB : ¬ B.faulty) {a : Option α} {b : Option β} (ha : p.Ends A a)
    (hb : p'.Ends B b) {q : Question} (hq : p.Asks A q) : p'.Asks B q := by
  induction h with
  | done x => exact hq.elim
  | fail fault => exact hq.elim
  | @askClass _ _ _ _ name _ _ _ ih =>
    rcases ha with ⟨i, hi, ha⟩ | ⟨hf, _⟩
    · rcases hb with ⟨j, hj, hb⟩ | ⟨hf, _⟩
      · obtain rfl := hcls _ i j hi hj
        refine hq.imp_right ?_
        rintro ⟨i', hi', hq⟩
        obtain rfl := hA.cls name i i' hi hi'
        exact ⟨ρ i, hj, ih i ha hb hq⟩
      · exact absurd hf hB
    · exact absurd hf hA.safe
  | @askVariable _ _ _ _ symbol _ _ _ _ _ ih =>
    obtain ⟨v, hv, ha⟩ := ha
    obtain ⟨w, hw, hb⟩ := hb
    obtain rfl := hvar _ v w hv hw
    refine hq.imp_right ?_
    rintro ⟨v', hv', hq⟩
    obtain rfl := hA.var symbol v v' hv hv'
    exact ⟨_, hw, ih v ha hb hq⟩
  | attempt hs _ ihs ih =>
    rcases ha with ⟨x, hx, ha⟩ | ⟨hf, _⟩
    · rcases hb with ⟨y, hy, hb⟩ | ⟨hf, _⟩
      · refine hq.imp (ihs hx hy) ?_
        rintro ⟨x', hx', hq⟩
        obtain rfl := hx.unique hA hx'
        obtain rfl := hs.unique hcls hvar hA.safe hB hx hy
        exact ⟨_, hy, ih x ha hb hq⟩
      · exact absurd hf hB
    · exact absurd hf hA.safe

end Ends

end Uniform

end JvmTypes.Loader.Script
