import JvmTypes.Method.Token
import JvmTypes.Proofs.Shape.Detaching
/-!
# Shapes that follow their class

A shape that is detached with its class replaced by the stand-in, and attached to another class, has
the new class wherever it had the old one: among plain and applied classes, and in the erasures of
variables.
-/
namespace JvmTypes

namespace Erased

variable {a b c : ClassId} {e : Erased}

theorem replaceClass_replaceClass (h : b ∉ e.classes) :
    (e.replaceClass a b).replaceClass b c = e.replaceClass a c := by
  induction e with
  | void => rfl
  | primitive _ => rfl
  | cls id =>
    have hne : id ≠ b := fun he => h (by simp [classes, he])
    by_cases ha : id = a <;> simp [replaceClass, ha, hne]
  | array e ih => rw [replaceClass, replaceClass, ih h, replaceClass]

theorem replaceClass_self (a : ClassId) (e : Erased) : e.replaceClass a a = e := by
  induction e with
  | void => rfl
  | primitive _ => rfl
  | cls id =>
    rw [replaceClass]
    split
    · rw [← ‹id = a›]
    · rfl
  | array e ih => rw [replaceClass, ih]

theorem mem_classes_replaceClass {id : ClassId} (h : id ∈ (e.replaceClass a b).classes) :
    id = b ∨ id ∈ e.classes := by
  induction e with
  | void => cases h
  | primitive _ => cases h
  | cls id' =>
    rw [replaceClass, classes, List.mem_singleton] at h
    split at h
    · exact Or.inl h
    · exact Or.inr (by rw [h, classes, List.mem_singleton])
  | array e ih => exact ih h

end Erased

namespace Substitution

variable {a b : ClassId}

/-- The class `a` becomes `b` everywhere, in the erasures of variables too. A variable that no
method declares becomes its erasure. -/
def relocating (a b : ClassId) : Substitution :=
  Substitution.renaming a b fun v =>
    if Method.isDeclaredOutside v then .plain (v.erasure.replaceClass a b)
    else .variable ⟨v.symbol, .method, v.erasure.replaceClass a b⟩

theorem keepsSort_relocating (a b : ClassId) : (relocating a b).KeepsSort :=
  keepsSort_of_plain (·.replaceClass a b) (fun _ => rfl) fun _ => rfl

theorem relocating_var_outside {v : TypeVariable} (h : Method.isDeclaredOutside v = true) :
    (relocating a b).var v = .plain (v.erasure.replaceClass a b) :=
  if_pos h

theorem relocating_var_own {v : TypeVariable} (h : Method.isDeclaredOutside v = false) :
    (relocating a b).var v = .variable ⟨v.symbol, .method, v.erasure.replaceClass a b⟩ := by
  change (if Method.isDeclaredOutside v = true then _ else _) = _
  rw [h, if_neg Bool.false_ne_true]

end Substitution

open Substitution Method

namespace Shape

variable {a b : ClassId} {t : Shape} {σ : Substitution}

theorem erasure?_subst_of_replaces (herased : ∀ e, σ.erased e = .plain (e.replaceClass a b))
    (hraw : ∀ id, σ.raw id = if id = a then b else id)
    (hvar : ∀ v ∈ t.references, (σ.var v).erasure? = some (v.erasure.replaceClass a b)) :
    (t.subst σ).erasure? = t.erasure?.map (·.replaceClass a b) := by
  induction t with
  | plain e => rw [subst_plain, herased, erasure?, erasure?, Option.map_some]
  | array c ih =>
    rw [subst_array, erasure?_arrayOf, ih hvar, erasure?, Option.map_map, Option.map_map]
    rfl
  | applied raw as o _ _ =>
    rw [subst_applied, erasure?, hraw, erasure?, Option.map_some, Erased.replaceClass]
  | upper b _ => rfl
  | lower b _ => rfl
  | reference v => rw [subst_reference, hvar v (by simp), erasure?, Option.map_some]

theorem erasure?_relocating (a b : ClassId) (t : Shape) :
    (t.subst (relocating a b)).erasure? = t.erasure?.map (·.replaceClass a b) := by
  refine erasure?_subst_of_replaces (fun _ => rfl) (fun _ => rfl) fun v _ => ?_
  cases h : isDeclaredOutside v with
  | true => rw [relocating_var_outside h, erasure?]
  | false => rw [relocating_var_own h, erasure?]

theorem erasure?_retargeting (h : ∀ v ∈ t.references, v.isDetached = false) :
    (t.subst (detaching isDeclaredOutside (some a))).erasure? =
      t.erasure?.map (·.replaceClass a .target) := by
  refine erasure?_subst_of_replaces (fun _ => rfl) ?_ ?_
  · intro id
    change (if some a = some id then ClassId.target else id) = _
    simp only [Option.some.injEq, eq_comm]
  · intro v hv
    simp only [detaching, h v hv, Bool.false_eq_true, if_false]
    split <;> rfl

/-- Detached from the class `a` and attached to `b`, where the symbols of the method's own variables
mean these variables with their erasures renamed. -/
theorem attach_retarget {scope : Scope}
    (hscope : ∀ v ∈ t.references, v.isDetached = false ∧ (isDeclaredOutside v = false →
      scope v.symbol = some ⟨v.symbol, .method, v.erasure.replaceClass a b⟩))
    (htarget : ClassId.target ∉ t.classes) :
    (t.subst (detaching isDeclaredOutside (some a))).subst (attachingIn scope b) =
      t.subst (relocating a b) := by
  have hvar : ∀ v ∈ t.references,
      ((detaching isDeclaredOutside (some a)).var v).subst (attachingIn scope b) =
        (relocating a b).var v := by
    intro v hv
    obtain ⟨hdetached, hresolve⟩ := hscope v hv
    have herasure : (v.erasure.replaceClass a .target).replaceClass .target b =
        v.erasure.replaceClass a b :=
      Erased.replaceClass_replaceClass fun h =>
        htarget (mem_classes.mpr (Or.inr (Or.inr ⟨v, hv, h⟩)))
    cases houtside : isDeclaredOutside v with
    | true =>
      simp [detaching, hdetached, houtside, subst_plain, attachingIn, attaching, herasure,
        relocating_var_outside]
    | false =>
      have hvariable : (attachingIn scope b).var
          ⟨v.symbol, .detached, v.erasure.replaceClass a .target⟩ =
            .variable ⟨v.symbol, .method, v.erasure.replaceClass a b⟩ :=
        attachingIn_var rfl (hresolve houtside)
      simp [detaching, hdetached, houtside, subst_reference, hvariable, relocating_var_own]
  apply subst_subst_eq (keepsSort_detaching _ _) (keepsSort_attachingIn scope b) (fun _ => rfl)
    (fun _ => rfl) (fun _ => rfl) hvar
  · intro e he
    have herased : (e.replaceClass a .target).replaceClass .target b = e.replaceClass a b :=
      Erased.replaceClass_replaceClass fun h => htarget (mem_classes.mpr (Or.inl ⟨e, he, h⟩))
    exact congrArg Shape.plain herased
  · intro id hid
    have hne : id ≠ .target := by
      rintro rfl
      exact htarget (mem_classes.mpr (Or.inr (Or.inl hid)))
    by_cases ha : id = a
    · simp [detaching, attachingIn, attaching, relocating, Substitution.renaming, ha]
    · simp [detaching, attachingIn, attaching, relocating, Substitution.renaming, ha, Ne.symm ha,
        hne]

theorem relocating_relocating (h : b ∉ t.classes) :
    (t.subst (relocating a b)).subst (relocating b a) = t.subst (erasing isDeclaredOutside) := by
  have hback : ∀ e : Erased, b ∉ e.classes → (e.replaceClass a b).replaceClass b a = e := by
    intro e he
    rw [Erased.replaceClass_replaceClass he, Erased.replaceClass_self]
  apply subst_subst_eq (keepsSort_relocating a b) (keepsSort_relocating b a) (fun _ => rfl)
    (fun _ => rfl) (fun _ => rfl)
  · intro v hv
    have herasure := hback v.erasure fun hb => h (mem_classes.mpr (Or.inr (Or.inr ⟨v, hv, hb⟩)))
    cases houtside : isDeclaredOutside v with
    | true =>
      rw [relocating_var_outside houtside, subst_plain]
      simp [relocating, Substitution.renaming, erasing, houtside, herasure]
    | false =>
      have hsource : v.source = .method := by simpa [isDeclaredOutside] using houtside
      have hkept : isDeclaredOutside ⟨v.symbol, .method, v.erasure.replaceClass a b⟩ = false := rfl
      rw [relocating_var_own houtside, subst_reference, relocating_var_own hkept, herasure,
        ← hsource]
      simp [erasing, houtside]
  · intro e he
    exact congrArg Shape.plain (hback e fun hb => h (mem_classes.mpr (Or.inl ⟨e, he, hb⟩)))
  · intro id hid
    have hne : id ≠ b := by
      rintro rfl
      exact h (mem_classes.mpr (Or.inr (Or.inl hid)))
    by_cases ha : id = a <;> simp [relocating, Substitution.renaming, erasing, ha, hne]

theorem mem_references_relocating {w : TypeVariable}
    (h : w ∈ (t.subst (relocating a b)).references) :
    ∃ v ∈ t.references, isDeclaredOutside v = false ∧
      w = ⟨v.symbol, .method, v.erasure.replaceClass a b⟩ := by
  obtain ⟨v, hv, hw⟩ :=
    mem_references_subst_of_plain (σ := relocating a b) (fun e => references_plain _) h
  have hvar : w ∈ ((relocating a b).var v).references := hw.elim id id
  cases houtside : isDeclaredOutside v with
  | true =>
    rw [relocating_var_outside houtside] at hvar
    cases hvar
  | false =>
    rw [relocating_var_own houtside] at hvar
    exact ⟨v, hv, houtside, by simpa using hvar⟩

theorem mem_classes_relocating {id : ClassId} (h : id ∈ (t.subst (relocating a b)).classes) :
    id = b ∨ id ∈ t.classes := by
  have hreplaced : ∀ e : Erased, id ∈ (Shape.plain (e.replaceClass a b)).classes →
      id = b ∨ id ∈ e.classes := by
    intro e he
    exact Erased.mem_classes_replaceClass (by simpa using he)
  induction t with
  | plain e => simpa using hreplaced e h
  | array c ih => exact ih (by simpa [subst_array] using h)
  | applied raw as o has ho =>
    rw [subst_applied, mem_classes_applied] at h
    rw [mem_classes_applied]
    rcases h with h | ⟨p, hp, h⟩ | ⟨x, hx, h⟩
    · have hraw : id = if raw = a then b else raw := h
      split at hraw
      · exact Or.inl hraw
      · exact Or.inr (Or.inl hraw)
    · obtain ⟨q, hq, rfl⟩ := Option.map_eq_some_iff.mp hp
      exact (ho q hq h).imp_right fun h => Or.inr (Or.inl ⟨q, hq, h⟩)
    · obtain ⟨y, hy, rfl⟩ := List.mem_map.mp hx
      rw [onArgument_of_isUniform fun _ => rfl] at h
      exact (has y hy h).imp_right fun h => Or.inr (Or.inr ⟨y, hy, h⟩)
  | upper b ih => exact ih h
  | lower b ih => exact ih h
  | reference v =>
    rw [subst_reference] at h
    rw [classes_reference]
    cases houtside : isDeclaredOutside v with
    | true =>
      rw [relocating_var_outside houtside] at h
      exact hreplaced v.erasure h
    | false =>
      rw [relocating_var_own houtside, classes_reference] at h
      exact Erased.mem_classes_replaceClass h

end Shape

end JvmTypes
