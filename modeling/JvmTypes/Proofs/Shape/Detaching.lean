import JvmTypes.Proofs.Shape.WellFormed
/-!
# Detaching and attaching again

A shape that was detached and attaches where its symbols mean what they meant before is the shape
itself, but for the variables that were erased on the way.
-/
namespace JvmTypes

namespace Substitution

def erasing (erase : TypeVariable → Bool) : Substitution where
  var v := if erase v then .plain v.erasure else .variable v

theorem keepsSort_erasing (erase : TypeVariable → Bool) : (erasing erase).KeepsSort :=
  keepsSort_of_plain id (fun _ => rfl) fun _ => rfl

theorem keepsSort_attachingIn (scope : Scope) (declaring : ClassId) :
    (attachingIn scope declaring).KeepsSort :=
  keepsSort_attaching _ declaring

theorem detaching_var {erase : TypeVariable → Bool} {v : TypeVariable} (hd : v.isDetached = false) :
    (detaching erase none).var v =
      if erase v then .plain v.erasure else .variable ⟨v.symbol, .detached, v.erasure⟩ := by
  simp [detaching, hd]

theorem attachingIn_var {scope : Scope} {declaring : ClassId} {v w : TypeVariable}
    (hd : v.isDetached = true) (h : scope v.symbol = some w) :
    (attachingIn scope declaring).var v = .variable w := by
  simp [attachingIn, attaching, hd, h]

/-- What a variable becomes has the erasure of the variable, and erased types stay. -/
structure KeepsErasure (σ : Substitution) : Prop where
  var : ∀ v, (σ.var v).erasure? = some v.erasure
  erased : ∀ e, σ.erased e = .plain e
  raw : ∀ id, σ.raw id = id

theorem keepsErasure_erasing (erase : TypeVariable → Bool) : (erasing erase).KeepsErasure := by
  refine ⟨?_, fun _ => rfl, fun _ => rfl⟩
  intro v
  by_cases h : erase v <;> simp [erasing, h, Shape.erasure?]

theorem keepsErasure_detaching (erase : TypeVariable → Bool) :
    (detaching erase none).KeepsErasure := by
  refine ⟨?_, fun _ => rfl, fun _ => rfl⟩
  intro v
  by_cases hd : v.isDetached <;> by_cases h : erase v <;> simp [detaching, hd, h, Shape.erasure?]

end Substitution

open Substitution

namespace Shape

variable {σ : Substitution} {erase : TypeVariable → Bool}

theorem erasure?_subst (h : σ.KeepsErasure) (t : Shape) : (t.subst σ).erasure? = t.erasure? := by
  induction t with
  | plain e => rw [subst_plain, h.erased]
  | array c ih => rw [subst_array, erasure?_arrayOf, ih, erasure?]
  | applied raw as o _ _ => rw [subst_applied, h.raw, erasure?, erasure?]
  | upper b _ => rw [subst_upper, erasure?, erasure?]
  | lower b _ => rw [subst_lower, erasure?, erasure?]
  | reference v => rw [subst_reference, h.var, erasure?]

/-- A substitution that puts references for references comes by every reference. -/
theorem references_subst_of_renames {f : TypeVariable → TypeVariable} (hu : σ.IsUniform)
    (hvar : ∀ v, σ.var v = .variable (f v)) (herased : ∀ e, (σ.erased e).references = [])
    (t : Shape) : (t.subst σ).references = t.references.map f := by
  induction t with
  | plain e => rw [subst_plain, herased, references_plain, List.map_nil]
  | array c ih => rw [subst_array, references_arrayOf, ih, references_array]
  | applied raw as o has ho =>
    have hargs : (as.map σ.onArgument).flatMap references =
        as.flatMap fun a => a.references.map f := by
      rw [List.flatMap_map]
      apply List.flatMap_congr
      intro a ha
      rw [onArgument_of_isUniform hu, has a ha]
    have howner : (o.map (subst σ)).toList.flatMap references =
        o.toList.flatMap fun p => p.references.map f := by
      cases o with
      | none => rfl
      | some p => simp [ho p rfl]
    rw [subst_applied, references_applied, references_applied, hargs, howner, List.map_append,
      List.map_flatMap, List.map_flatMap]
  | upper b ih => rw [subst_upper, references_upper, ih, references_upper]
  | lower b ih => rw [subst_lower, references_lower, ih, references_lower]
  | reference v => rw [subst_reference, hvar, references_reference, references_reference]; rfl

theorem mem_references_subst {t : Shape} {w : TypeVariable} (h : w ∈ (t.subst σ).references) :
    (∃ v ∈ t.references, w ∈ (σ.var v).references ∨ w ∈ (σ.argument v).references) ∨
      ∃ e ∈ t.plains, w ∈ (σ.erased e).references := by
  induction t with
  | plain e => exact Or.inr ⟨e, by simp, h⟩
  | array c ih =>
    rw [subst_array, references_arrayOf] at h
    simpa using ih h
  | applied raw as o has ho =>
    simp only [mem_references_applied, mem_plains_applied]
    rw [subst_applied] at h
    rcases mem_references_applied.mp h with ⟨p, hp, hw⟩ | ⟨a', ha', hw⟩
    · obtain ⟨q, hq, rfl⟩ := Option.map_eq_some_iff.mp hp
      rcases ho q hq hw with ⟨v, hv, hw⟩ | ⟨e, he, hw⟩
      · exact Or.inl ⟨v, Or.inl ⟨q, hq, hv⟩, hw⟩
      · exact Or.inr ⟨e, Or.inl ⟨q, hq, he⟩, hw⟩
    · obtain ⟨a, ha, rfl⟩ := List.mem_map.mp ha'
      by_cases hvar : ∃ v, a = .variable v
      · obtain ⟨v, rfl⟩ := hvar
        exact Or.inl ⟨v, Or.inr ⟨_, ha, by simp⟩, Or.inr hw⟩
      · push Not at hvar
        rw [onArgument_eq_subst hvar] at hw
        rcases has a ha hw with ⟨v, hv, hw⟩ | ⟨e, he, hw⟩
        · exact Or.inl ⟨v, Or.inr ⟨a, ha, hv⟩, hw⟩
        · exact Or.inr ⟨e, Or.inr ⟨a, ha, he⟩, hw⟩
  | upper b ih =>
    rw [subst_upper, references_upper] at h
    simpa using ih h
  | lower b ih =>
    rw [subst_lower, references_lower] at h
    simpa using ih h
  | reference v => exact Or.inl ⟨v, by simp, Or.inl (by rwa [subst_reference] at h)⟩

theorem mem_references_subst_of_plain (hplain : ∀ e, (σ.erased e).references = []) {t : Shape}
    {w : TypeVariable} (h : w ∈ (t.subst σ).references) :
    ∃ v ∈ t.references, w ∈ (σ.var v).references ∨ w ∈ (σ.argument v).references := by
  rcases mem_references_subst h with h | ⟨e, _, hw⟩
  · exact h
  · simp [hplain] at hw

theorem mem_references_erasing {t : Shape} {w : TypeVariable}
    (h : w ∈ (t.subst (erasing erase)).references) :
    w ∈ t.references := by
  obtain ⟨v, hv, hw⟩ :=
    mem_references_subst_of_plain (σ := erasing erase) (fun e => references_plain e) h
  have hvar : w ∈ ((erasing erase).var v).references := hw.elim id id
  by_cases he : erase v
  · simp [erasing, he] at hvar
  · obtain rfl : w = v := by simpa [erasing, he] using hvar
    exact hv

/-- Symbols that the scope resolves to the variables behind them attach to these variables. -/
theorem attach_detach {scope : Scope} {declaring : ClassId} {t : Shape}
    (hscope : ∀ v ∈ t.references, v.isDetached = false ∧
        (erase v = false → scope v.symbol = some v)) (htarget : ClassId.target ∉ t.classes) :
    (t.subst (detaching erase none)).subst (attachingIn scope declaring) =
      t.subst (erasing erase) := by
  have hvar : ∀ v ∈ t.references,
      ((detaching erase none).var v).subst (attachingIn scope declaring) =
        (erasing erase).var v := by
    intro v hv
    obtain ⟨hdetached, hresolve⟩ := hscope v hv
    rw [detaching_var hdetached]
    by_cases he : erase v
    · have herasure : v.erasure.replaceClass .target declaring = v.erasure :=
        Erased.replaceClass_eq_self fun h => htarget (mem_classes.mpr (Or.inr (Or.inr ⟨v, hv, h⟩)))
      simp [erasing, he, subst_plain, attachingIn, attaching, herasure]
    · have hvariable : (attachingIn scope declaring).var ⟨v.symbol, .detached, v.erasure⟩ =
          .variable v :=
        attachingIn_var rfl (hresolve (by simpa using he))
      rw [if_neg he, subst_reference, hvariable]
      simp [erasing, he]
  apply subst_subst_eq (keepsSort_detaching erase none) (keepsSort_attachingIn scope declaring)
    (fun _ => rfl) (fun _ => rfl) (fun _ => rfl) hvar
  · intro e he
    have herased : e.replaceClass .target declaring = e :=
      Erased.replaceClass_eq_self fun h => htarget (mem_classes.mpr (Or.inl ⟨e, he, h⟩))
    exact congrArg Shape.plain herased
  · intro id hid
    have hne : id ≠ .target := by
      rintro rfl
      exact htarget (mem_classes.mpr (Or.inr (Or.inl hid)))
    exact if_neg hne

theorem detach_erasing {t : Shape} (h : ∀ v ∈ t.references, v.isDetached = false) :
    (t.subst (erasing erase)).subst (detaching erase none) = t.subst (detaching erase none) := by
  have hvar : ∀ v ∈ t.references,
      ((erasing erase).var v).subst (detaching erase none) = (detaching erase none).var v := by
    intro v hv
    by_cases he : erase v
    · rw [detaching_var (h v hv), if_pos he]
      simp [erasing, he, subst_plain, detaching]
    · simp [erasing, he, subst_reference]
  exact subst_subst_eq (keepsSort_erasing erase) (keepsSort_detaching erase none) (fun _ => rfl)
    (fun _ => rfl) (fun _ => rfl) hvar (fun _ _ => rfl) fun _ _ => rfl

theorem detachedArguments_eq_flatMap (as : List Shape) :
    detachedArguments as = as.flatMap detachedSymbols := by
  induction as with
  | nil => rfl
  | cons a as ih => rw [detachedArguments, ih, List.flatMap_cons]

theorem detachedSymbols_applied (raw : ClassId) (as : List Shape) (o : Option Shape) :
    (applied raw as o).detachedSymbols =
      o.toList.flatMap detachedSymbols ++ as.flatMap detachedSymbols := by
  cases o <;> simp [detachedSymbols, detachedArguments_eq_flatMap]

def symbolsOf (vs : List TypeVariable) : List String := (vs.filter (·.isDetached)).map (·.symbol)

theorem symbolsOf_flatMap (ts : List Shape) :
    symbolsOf (ts.flatMap references) = ts.flatMap fun t => symbolsOf t.references := by
  simp [symbolsOf, List.filter_flatMap, List.map_flatMap]

theorem symbolsOf_append (vs ws : List TypeVariable) :
    symbolsOf (vs ++ ws) = symbolsOf vs ++ symbolsOf ws := by
  simp [symbolsOf]

theorem detachedSymbols_eq (t : Shape) : t.detachedSymbols = symbolsOf t.references := by
  induction t with
  | plain e => rfl
  | array c ih => exact ih
  | applied raw as o has ho =>
    have howner : ∀ p ∈ o.toList, p.detachedSymbols = symbolsOf p.references :=
      fun p hp => ho p (Option.mem_toList.mp hp)
    rw [detachedSymbols_applied, references_applied, symbolsOf_append, symbolsOf_flatMap,
      symbolsOf_flatMap, List.flatMap_congr howner, List.flatMap_congr has]
  | upper b ih => exact ih
  | lower b ih => exact ih
  | reference v => cases hd : v.isDetached <;> simp [detachedSymbols, symbolsOf, hd]

theorem detachedSymbols_eq_nil {t : Shape} (h : ∀ v ∈ t.references, v.isDetached = false) :
    t.detachedSymbols = [] := by
  rw [detachedSymbols_eq, symbolsOf, List.map_eq_nil_iff, List.filter_eq_nil_iff]
  intro v hv
  rw [h v hv]
  exact Bool.false_ne_true

end Shape

end JvmTypes
