import JvmTypes.Field
import JvmTypes.Proofs.Method.Reattachment
/-!
# Own variables are kept

A view of a method shows what the substitution makes of each declared type, but for the variables of
the method itself: where one stands the view has it again, and the substitution has no say in it.
-/
namespace JvmTypes

namespace Shape

variable {erasures : String → Erased}

mutual

/-- `seen` is `made` with every variable of the method put back where `declared` has it, with the
erasure that `erasures` gives its symbol. Every other part of `declared` became the same in both. -/
inductive Keeps (erasures : String → Erased) : (declared made seen : Shape) → Prop
  | own {v : TypeVariable} {made : Shape} (h : v.source = .method) :
      Keeps erasures (.variable v) made (.variable ⟨v.symbol, .method, erasures v.symbol⟩)
  | reference {v : TypeVariable} {made : Shape} (h : v.source ≠ .method) :
      Keeps erasures (.variable v) made made
  | plain {e : Erased} {made : Shape} : Keeps erasures (.plain e) made made
  | array {c made seen : Shape} (h : Keeps erasures c made seen) :
      Keeps erasures (.array c) (arrayOf made) (arrayOf seen)
  | applied {raw raw' : ClassId} {as made seen : List Shape} {o madeOwner seenOwner : Option Shape}
      (has : KeepsArguments erasures as made seen)
      (ho : KeepsOwner erasures o madeOwner seenOwner) :
      Keeps erasures (.applied raw as o) (.applied raw' made madeOwner)
        (.applied raw' seen seenOwner)
  | upper {b made seen : Shape} (h : Keeps erasures b made seen) :
      Keeps erasures (.upper b) (.upper made) (.upper seen)
  | lower {b made seen : Shape} (h : Keeps erasures b made seen) :
      Keeps erasures (.lower b) (.lower made) (.lower seen)

inductive KeepsArguments (erasures : String → Erased) : (declared made seen : List Shape) → Prop
  | nil : KeepsArguments erasures [] [] []
  | cons {a made seen : Shape} {as mades seens : List Shape} (ha : Keeps erasures a made seen)
      (has : KeepsArguments erasures as mades seens) :
      KeepsArguments erasures (a :: as) (made :: mades) (seen :: seens)

inductive KeepsOwner (erasures : String → Erased) : (declared made seen : Option Shape) → Prop
  | none : KeepsOwner erasures none none none
  | some {o made seen : Shape} (h : Keeps erasures o made seen) :
      KeepsOwner erasures (some o) (some made) (some seen)

end

theorem keepsArguments_map {f g : Shape → Shape} {as : List Shape}
    (h : ∀ a ∈ as, Keeps erasures a (f a) (g a)) :
    KeepsArguments erasures as (as.map f) (as.map g) := by
  induction as with
  | nil => exact .nil
  | cons a as ih => exact .cons (h a (by simp)) (ih fun b hb => h b (by simp [hb]))

theorem keepsOwner_map {f g : Shape → Shape} {o : Option Shape}
    (h : ∀ p ∈ o, Keeps erasures p (f p) (g p)) : KeepsOwner erasures o (o.map f) (o.map g) := by
  cases o with
  | none => exact .none
  | some p => exact .some (h p rfl)

theorem KeepsArguments.eq_of_forall {as made seen : List Shape}
    (h : KeepsArguments erasures as made seen)
    (has : ∀ a ∈ as, ∀ r u, Keeps erasures a r u → u = r) : seen = made := by
  induction as generalizing made seen with
  | nil =>
    cases h with
    | nil => rfl
  | cons a as ih =>
    cases h with
    | cons ha hrest =>
      rw [has a (by simp) _ _ ha, ih hrest fun b hb => has b (by simp [hb])]

theorem KeepsOwner.eq_of_forall {o made seen : Option Shape} (h : KeepsOwner erasures o made seen)
    (ho : ∀ p ∈ o, ∀ r u, Keeps erasures p r u → u = r) : seen = made := by
  cases h with
  | none => rfl
  | some h => rw [ho _ rfl _ _ h]

theorem Keeps.eq_of_foreign {t made seen : Shape} (h : Keeps erasures t made seen)
    (ht : ∀ v ∈ t.references, v.source ≠ .method) : seen = made := by
  induction t generalizing made seen with
  | plain e =>
    cases h with
    | plain => rfl
  | array c ih =>
    cases h with
    | array h => rw [ih h (by simpa using ht)]
  | applied raw as o has ho =>
    simp only [mem_references_applied] at ht
    cases h with
    | applied hargs howner =>
      rw [hargs.eq_of_forall fun a ha r u hu => has a ha hu fun v hv => ht v (Or.inr ⟨a, ha, hv⟩),
        howner.eq_of_forall fun p hp r u hu => ho p hp hu fun v hv => ht v (Or.inl ⟨p, hp, hv⟩)]
  | upper b ih =>
    cases h with
    | upper h => rw [ih h (by simpa using ht)]
  | lower b ih =>
    cases h with
    | lower h => rw [ih h (by simpa using ht)]
  | reference v =>
    cases h with
    | own h => exact absurd h (ht v (by simp))
    | reference _ => rfl

end Shape

namespace Substitution

open Shape

structure AgreesOutsideMethods (σ τ : Substitution) : Prop where
  var : ∀ v, v.source ≠ .method → σ.var v = τ.var v
  argument : ∀ v, v.source ≠ .method → σ.argument v = τ.argument v
  erased : ∀ e, σ.erased e = τ.erased e
  raw : ∀ id, σ.raw id = τ.raw id

variable {σ τ : Substitution}

namespace AgreesOutsideMethods

variable (h : σ.AgreesOutsideMethods τ)
include h

theorem boundErasure_eq (own : String → Erased) (b : Shape) :
    σ.boundErasure own b = τ.boundErasure own b := by
  induction b with
  | plain e => rw [boundErasure, boundErasure, h.erased]
  | array c ih => rw [boundErasure, boundErasure, ih]
  | applied raw as o _ _ => rw [boundErasure, boundErasure, h.raw]
  | upper b _ => rfl
  | lower b _ => rfl
  | reference v =>
    rw [boundErasure, boundErasure]
    split
    · rfl
    · rw [h.var v ‹_›]

theorem chainErasure_eq (vars : List TypeVarDecl) (steps : Nat) :
    σ.chainErasure vars steps = τ.chainErasure vars steps := by
  induction steps with
  | zero =>
    funext visited symbol
    rfl
  | succ steps ih =>
    funext visited symbol
    rw [chainErasure, chainErasure, ih]
    simp only [h.boundErasure_eq]

theorem retaining_eq (vars : List TypeVarDecl) : σ.retaining vars = τ.retaining vars := by
  have hown : σ.ownErasure vars = τ.ownErasure vars := by
    funext symbol
    rw [ownErasure, ownErasure, h.chainErasure_eq]
  have hvar : (σ.retaining vars).var = (τ.retaining vars).var := by
    funext v
    by_cases hv : v.source = .method
    · simp [retaining, hv, hown]
    · simp [retaining, hv, h.var v hv]
  have hargument : (σ.retaining vars).argument = (τ.retaining vars).argument := by
    funext v
    by_cases hv : v.source = .method
    · simp [retaining, hv, hown]
    · simp [retaining, hv, h.argument v hv]
  have hrest : (σ.retaining vars).erased = (τ.retaining vars).erased ∧
      (σ.retaining vars).raw = (τ.retaining vars).raw := ⟨funext h.erased, funext h.raw⟩
  cases hσ : σ.retaining vars
  cases hτ : τ.retaining vars
  simp_all

end AgreesOutsideMethods

/-- Keeping the variables of the method and passing all else to `σ`, in an argument position and in
every other one. -/
theorem keeps_retaining (σ : Substitution) (vars : List TypeVarDecl) (t : Shape) :
    Keeps (σ.ownErasure vars) t (t.subst σ) (t.subst (σ.retaining vars)) ∧
      Keeps (σ.ownErasure vars) t (σ.onArgument t) ((σ.retaining vars).onArgument t) := by
  -- only a variable is treated apart where it is an argument
  have both : ∀ u : Shape, (∀ v, u ≠ .variable v) →
      Keeps (σ.ownErasure vars) u (u.subst σ) (u.subst (σ.retaining vars)) →
      Keeps (σ.ownErasure vars) u (u.subst σ) (u.subst (σ.retaining vars)) ∧
        Keeps (σ.ownErasure vars) u (σ.onArgument u) ((σ.retaining vars).onArgument u) := by
    intro u hu h
    rw [onArgument_eq_subst hu, onArgument_eq_subst hu]
    exact ⟨h, h⟩
  induction t with
  | plain e => exact both _ nofun .plain
  | array c ih => exact both _ nofun (.array ih.1)
  | applied raw as o has ho =>
    refine both _ nofun ?_
    rw [subst_applied, subst_applied]
    exact .applied (keepsArguments_map fun a ha => (has a ha).2)
      (keepsOwner_map fun p hp => (ho p hp).1)
  | upper b ih => exact both _ nofun (.upper ih.1)
  | lower b ih => exact both _ nofun (.lower ih.1)
  | reference v =>
    rw [subst_reference, subst_reference, onArgument, onArgument]
    by_cases hv : v.source = .method
    · simp only [retaining, hv, if_true]
      exact ⟨.own hv, .own hv⟩
    · simp only [retaining, hv, if_false]
      exact ⟨.reference hv, .reference hv⟩

end Substitution

namespace Method

open Substitution

variable {m view : Method} {σ : Substitution}

/-- The view has the types of the declaration as `σ` makes them, each with the variables of the
method kept. It lists its parameters whenever the declaration does. -/
structure Retains (m : Method) (σ : Substitution) (erasures : String → Erased)
    (view : Method) : Prop where
  typeVariables : List.Forall₂
    (fun d v => v.symbol = d.symbol ∧
      List.Forall₂ (fun t seen => t.Keeps erasures (t.subst σ) seen) d.bounds v.bounds)
    m.decl.typeVariables view.typeVariables
  returnType : m.decl.returnType.Keeps erasures (m.decl.returnType.subst σ) view.returnType
  parameterTypes : List.Forall₂ (fun p seen => p.type.Keeps erasures (p.type.subst σ) seen)
    m.decl.parameters view.parameterTypes
  parameters : view.parameters.map (List.map Parameter.type) =
    m.parameters.map fun _ => view.parameterTypes
  exceptions : List.Forall₂ (fun t seen => t.Keeps erasures (t.subst σ) seen)
    m.decl.exceptions view.exceptions

theorem types_parametersFrom (m : Method) (T : Shape) (σ : Substitution) (ps : List ParameterDecl)
    (index offset : Nat) :
    ((m.through T σ).parametersFrom index offset ps).map (List.map Parameter.type) =
      (m.parametersFrom index offset ps).map fun _ =>
        ps.map fun p => (m.through T σ).see p.type := by
  induction ps generalizing index offset with
  | nil => rfl
  | cons p ps ih =>
    cases he : p.type.erasure? with
    | none =>
      rw [parametersFrom, parametersFrom, Shape.erasure, he]
      rfl
    | some e =>
      have hrest := ih (index + 1) (offset + e.slots)
      rw [parametersFrom_cons _ he, parametersFrom_cons _ he]
      cases hseen : (m.through T σ).parametersFrom (index + 1) (offset + e.slots) ps <;>
        cases hdeclared : m.parametersFrom (index + 1) (offset + e.slots) ps <;>
          rw [hseen, hdeclared] at hrest
      · exact hrest
      · cases hrest
      · cases hrest
      · exact congrArg (fun ts => Except.ok (_ :: ts)) (Except.ok.inj hrest)

theorem retains_through (m : Method) (T : Shape) (σ : Substitution) :
    m.Retains σ (σ.ownErasure m.decl.typeVariables) (m.through T σ) := by
  have hsee : ∀ t : Shape,
      t.Keeps (σ.ownErasure m.decl.typeVariables) (t.subst σ) ((m.through T σ).see t) :=
    fun t => (keeps_retaining σ m.decl.typeVariables t).1
  have hshapes : ∀ ts : List Shape, List.Forall₂
      (fun t seen => t.Keeps (σ.ownErasure m.decl.typeVariables) (t.subst σ) seen) ts
      (ts.map (m.through T σ).see) :=
    fun ts => forall₂_map_self fun t _ => hsee t
  refine ⟨?_, hsee _, ?_, types_parametersFrom m T σ _ _ _, hshapes _⟩
  · exact forall₂_map_self fun d _ => ⟨rfl, hshapes _⟩
  · exact forall₂_map_self fun p _ => hsee p.type

/-- A method seen through any substitution shows what the substitution makes of the declared types
and keeps the variables that it declares itself: of those the substitution is never asked. Where
there are none a method is seen as a field is. -/
theorem view_keeps_own_variables (m : Method) (T : Shape) (σ : Substitution) :
    (∃ erasures, m.Retains σ erasures (m.through T σ)) ∧
    (∀ τ, σ.AgreesOutsideMethods τ → ∀ t, (m.through T τ).see t = (m.through T σ).see t) ∧
    (∀ t : Shape, (∀ v ∈ t.references, v.source ≠ .method) → (m.through T σ).see t = t.subst σ) ∧
    ∀ f : Field, (∀ v ∈ f.decl.type.references, v.source ≠ .method) →
      (f.through T σ).type = (m.through T σ).see f.decl.type := by
  have hforeign : ∀ t : Shape, (∀ v ∈ t.references, v.source ≠ .method) →
      (m.through T σ).see t = t.subst σ :=
    fun t ht => (keeps_retaining σ m.decl.typeVariables t).1.eq_of_foreign ht
  refine ⟨⟨_, retains_through m T σ⟩, ?_, hforeign, fun f hf => (hforeign f.decl.type hf).symm⟩
  intro τ hτ t
  exact congrArg t.subst (hτ.retaining_eq m.decl.typeVariables).symm

end Method

end JvmTypes
