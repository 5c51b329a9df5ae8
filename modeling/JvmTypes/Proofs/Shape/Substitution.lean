import JvmTypes.Binding
import JvmTypes.Detachment
import JvmTypes.Proofs.Shape.Structure
/-!
# Laws of substitution

Two substitutions in a row are one, and a substitution matters only on what occurs in a shape. Both
hold for the substitutions that keep plain types plain and arrays arrays, as all substitutions of
this library do.
-/
namespace JvmTypes

namespace Substitution

/-- Plain types stay plain, and an array becomes the array of what its component becomes. -/
structure KeepsSort (σ : Substitution) : Prop where
  plain : ∀ e, ∃ e', σ.erased e = .plain e'
  array : ∀ e, σ.erased (.array e) = .arrayOf (σ.erased e)

def identity : Substitution where
  var := .variable

def andThen (σ τ : Substitution) : Substitution where
  var v := (σ.var v).subst τ
  argument v := τ.onArgument (σ.argument v)
  erased e := (σ.erased e).subst τ
  raw id := τ.raw (σ.raw id)

/-- A variable becomes the same where it is an argument as anywhere else. -/
def IsUniform (σ : Substitution) : Prop := ∀ v, σ.argument v = σ.var v

theorem keepsSort_of_plain {σ : Substitution} (f : Erased → Erased)
    (he : ∀ e, σ.erased e = .plain (f e)) (hf : ∀ e, f (.array e) = .array (f e)) :
    σ.KeepsSort := by
  refine ⟨fun e => ⟨f e, he e⟩, ?_⟩
  intro e
  simp [he, hf, Shape.arrayOf]

theorem keepsSort_identity : identity.KeepsSort := keepsSort_of_plain id (fun _ => rfl) fun _ => rfl

theorem keepsSort_detaching (erase : TypeVariable → Bool) (retarget : Option ClassId) :
    (detaching erase retarget).KeepsSort := by
  cases retarget with
  | none => exact keepsSort_of_plain id (fun _ => rfl) fun _ => rfl
  | some id => exact keepsSort_of_plain (·.replaceClass id .target) (fun _ => rfl) fun _ => rfl

theorem keepsSort_attaching (resolve : String → Option Shape) (declaring : ClassId) :
    (attaching resolve declaring).KeepsSort :=
  keepsSort_of_plain (·.replaceClass .target declaring) (fun _ => rfl) fun _ => rfl

end Substitution

theorem Binding.keepsSort (b : Binding) : b.toSubstitution.KeepsSort :=
  Substitution.keepsSort_of_plain id (fun _ => rfl) fun _ => rfl

namespace Shape

variable {σ τ : Substitution}

theorem subst_plain (σ : Substitution) (e : Erased) : (plain e).subst σ = σ.erased e := rfl
theorem subst_array (σ : Substitution) (c : Shape) : (array c).subst σ = arrayOf (c.subst σ) := rfl
theorem subst_upper (σ : Substitution) (b : Shape) : (upper b).subst σ = upper (b.subst σ) := rfl
theorem subst_lower (σ : Substitution) (b : Shape) : (lower b).subst σ = lower (b.subst σ) := rfl
theorem subst_reference (σ : Substitution) (v : TypeVariable) :
    (Shape.variable v).subst σ = σ.var v := rfl

theorem subst_applied (σ : Substitution) (raw : ClassId) (as : List Shape) (o : Option Shape) :
    (applied raw as o).subst σ = .applied (σ.raw raw) (as.map σ.onArgument) (o.map (subst σ)) := by
  simp [subst, substArguments_eq_map, substOwner_eq_map]

theorem subst_arrayOf (hτ : τ.KeepsSort) (c : Shape) :
    (arrayOf c).subst τ = arrayOf (c.subst τ) := by
  cases c <;> simp [arrayOf, subst, hτ.array]

theorem onArgument_subst (hσ : σ.KeepsSort) {t : Shape} (ht : ∀ v, t ≠ .variable v) :
    τ.onArgument (t.subst σ) = (t.subst σ).subst τ := by
  cases t with
  | plain e =>
    obtain ⟨e', he⟩ := hσ.plain e
    simp [subst, he, Substitution.onArgument]
  | array c =>
    rw [subst_array]
    cases c.subst σ <;> rfl
  | «variable» v => exact absurd rfl (ht v)
  | applied _ _ _ => simp only [subst, Substitution.onArgument]
  | upper _ => simp only [subst, Substitution.onArgument]
  | lower _ => simp only [subst, Substitution.onArgument]

theorem onArgument_eq_subst {t : Shape} (ht : ∀ v, t ≠ .variable v) :
    σ.onArgument t = t.subst σ := by
  unfold Substitution.onArgument
  split
  · exact absurd rfl (ht _)
  · rfl

theorem onArgument_of_isUniform (h : σ.IsUniform) (t : Shape) : σ.onArgument t = t.subst σ := by
  cases t with
  | «variable» v => exact h v
  | plain _ | array _ | applied _ _ _ | upper _ | lower _ => rfl

theorem subst_subst (hσ : σ.KeepsSort) (hτ : τ.KeepsSort) (t : Shape) :
    (t.subst σ).subst τ = t.subst (σ.andThen τ) := by
  induction t with
  | plain e => simp [subst, Substitution.andThen]
  | array c ih => rw [subst_array, subst_array, subst_arrayOf hτ, ih]
  | applied raw as o has ho =>
    have hargs : (as.map σ.onArgument).map τ.onArgument = as.map (σ.andThen τ).onArgument := by
      rw [List.map_map]
      apply List.map_congr_left
      intro a ha
      by_cases hv : ∃ v, a = .variable v
      · obtain ⟨v, rfl⟩ := hv
        rfl
      · push Not at hv
        rw [Function.comp_apply, onArgument_eq_subst hv, onArgument_eq_subst hv,
          onArgument_subst hσ hv]
        exact has a ha
    have howner : (o.map (subst σ)).map (subst τ) = o.map (subst (σ.andThen τ)) := by
      rw [Option.map_map]
      exact Option.map_congr ho
    simp only [subst_applied, hargs, howner]
    rfl
  | upper b ih => rw [subst_upper, subst_upper, subst_upper, ih]
  | lower b ih => rw [subst_lower, subst_lower, subst_lower, ih]
  | reference v => simp [subst, Substitution.andThen]

theorem subst_congr {t : Shape} (hvar : ∀ v ∈ t.references, σ.var v = τ.var v)
    (hargument : ∀ v ∈ t.references, σ.argument v = τ.argument v)
    (herased : ∀ e ∈ t.plains, σ.erased e = τ.erased e)
    (hraw : ∀ id ∈ t.raws, σ.raw id = τ.raw id) :
    t.subst σ = t.subst τ := by
  induction t with
  | plain e => simpa [subst] using herased e
  | array c ih =>
    simp only [references_array, plains_array, raws_array] at hvar hargument herased hraw
    rw [subst_array, subst_array, ih hvar hargument herased hraw]
  | applied raw as o has ho =>
    simp only [mem_references_applied, mem_plains_applied, mem_raws_applied]
      at hvar hargument herased hraw
    have hargs : as.map σ.onArgument = as.map τ.onArgument := by
      apply List.map_congr_left
      intro a ha
      by_cases hv : ∃ v, a = .variable v
      · obtain ⟨v, rfl⟩ := hv
        exact hargument v (Or.inr ⟨_, ha, by simp⟩)
      · push Not at hv
        rw [onArgument_eq_subst hv, onArgument_eq_subst hv]
        exact has a ha (fun v h => hvar v (Or.inr ⟨a, ha, h⟩))
          (fun v h => hargument v (Or.inr ⟨a, ha, h⟩))
          (fun e h => herased e (Or.inr ⟨a, ha, h⟩)) fun id h =>
          hraw id (Or.inr (Or.inr ⟨a, ha, h⟩))
    have howner : o.map (subst σ) = o.map (subst τ) := by
      apply Option.map_congr
      intro p hp
      exact ho p hp (fun v h => hvar v (Or.inl ⟨p, hp, h⟩))
        (fun v h => hargument v (Or.inl ⟨p, hp, h⟩))
        (fun e h => herased e (Or.inl ⟨p, hp, h⟩)) fun id h => hraw id (Or.inr (Or.inl ⟨p, hp, h⟩))
    rw [subst_applied, subst_applied, hargs, howner, hraw raw (Or.inl rfl)]
  | upper b ih =>
    simp only [references_upper, plains_upper, raws_upper] at hvar hargument herased hraw
    rw [subst_upper, subst_upper, ih hvar hargument herased hraw]
  | lower b ih =>
    simp only [references_lower, plains_lower, raws_lower] at hvar hargument herased hraw
    rw [subst_lower, subst_lower, ih hvar hargument herased hraw]
  | reference v => simpa [subst] using hvar v

/-- Two substitutions in a row do what a third does, if they do so to all that occurs in a shape. -/
theorem subst_subst_eq {ρ : Substitution} (hσ : σ.KeepsSort) (hτ : τ.KeepsSort)
    (hσu : σ.IsUniform) (hτu : τ.IsUniform) (hρu : ρ.IsUniform) {t : Shape}
    (hvar : ∀ v ∈ t.references, (σ.var v).subst τ = ρ.var v)
    (herased : ∀ e ∈ t.plains, (σ.erased e).subst τ = ρ.erased e)
    (hraw : ∀ id ∈ t.raws, τ.raw (σ.raw id) = ρ.raw id) : (t.subst σ).subst τ = t.subst ρ := by
  rw [subst_subst hσ hτ]
  refine subst_congr hvar ?_ herased hraw
  intro v hv
  change τ.onArgument (σ.argument v) = ρ.argument v
  rw [onArgument_of_isUniform hτu, hσu v, hvar v hv, hρu v]

end Shape

end JvmTypes
