import JvmTypes.Proofs.Shape.Substitution
/-!
# Well-formed shapes

The shapes that a declaration can write: wildcards stand only as type arguments, an array of a plain
type is plain, and every reference is to a variable that the declaration knows.
-/
namespace JvmTypes.Shape

/-- No array of a plain type is left unfolded. -/
def IsNormal (t : Shape) : Prop := t.subst .identity = t

instance (t : Shape) : Decidable t.IsNormal := inferInstanceAs (Decidable (_ = _))

theorem subst_eq_self {σ : Substitution} {t : Shape} (ht : t.IsNormal)
    (hvar : ∀ v ∈ t.references, σ.var v = .variable v ∧ σ.argument v = .variable v)
    (herased : ∀ e, σ.erased e = .plain e) (hraw : ∀ id, σ.raw id = id) : t.subst σ = t :=
  calc t.subst σ
    _ = t.subst .identity := subst_congr (fun v hv => (hvar v hv).1) (fun v hv => (hvar v hv).2)
      (fun e _ => herased e) fun id _ => hraw id
    _ = t := ht

structure WellFormed (P : TypeVariable → Prop) (t : Shape) : Prop where
  regular : t.isRegular = true
  normal : t.IsNormal
  references : ∀ v ∈ t.references, P v

structure WellFormedArgument (P : TypeVariable → Prop) (t : Shape) : Prop where
  regular : t.isRegularArgument = true
  normal : t.IsNormal
  references : ∀ v ∈ t.references, P v

variable {P Q : TypeVariable → Prop}

theorem WellFormed.imp (h : ∀ v, P v → Q v) {t : Shape} (ht : WellFormed P t) : WellFormed Q t :=
  ⟨ht.regular, ht.normal, fun v hv => h v (ht.references v hv)⟩

theorem WellFormed.argument {t : Shape} (h : WellFormed P t) : WellFormedArgument P t :=
  ⟨isRegular.argument h.regular, h.normal, h.references⟩

theorem wellFormed_plain (e : Erased) : WellFormed P (.plain e) := ⟨rfl, rfl, by simp⟩

theorem wellFormed_reference {v : TypeVariable} (h : P v) : WellFormed P (.variable v) :=
  ⟨rfl, rfl, by simpa using h⟩

theorem WellFormed.arrayOf {t : Shape} (h : WellFormed P t) : WellFormed P (arrayOf t) := by
  refine ⟨by simpa using h.regular, ?_, by simpa using h.references⟩
  rw [IsNormal, subst_arrayOf Substitution.keepsSort_identity, h.normal]

theorem WellFormed.upper {t : Shape} (h : WellFormed P t) : WellFormedArgument P (.upper t) :=
  ⟨h.regular, by rw [IsNormal, subst_upper, h.normal], by simpa using h.references⟩

theorem WellFormed.lower {t : Shape} (h : WellFormed P t) : WellFormedArgument P (.lower t) :=
  ⟨h.regular, by rw [IsNormal, subst_lower, h.normal], by simpa using h.references⟩

theorem onArgument_identity {t : Shape} (h : t.IsNormal) :
    Substitution.identity.onArgument t = t := by
  by_cases hv : ∃ v, t = .variable v
  · obtain ⟨v, rfl⟩ := hv
    rfl
  · push Not at hv
    rw [onArgument_eq_subst hv, h]

theorem wellFormed_applied {raw : ClassId} {as : List Shape} {o : Option Shape}
    (has : ∀ a ∈ as, WellFormedArgument P a) (ho : ∀ p ∈ o, WellFormed P p) :
    WellFormed P (.applied raw as o) := by
  refine ⟨isRegular_applied.mpr ⟨fun a ha => (has a ha).regular, fun p hp => (ho p hp).regular⟩,
    ?_, ?_⟩
  · have hargs : as.map Substitution.identity.onArgument = as :=
      (List.map_congr_left fun a ha => onArgument_identity (has a ha).normal).trans (List.map_id as)
    have howner : o.map (subst .identity) = o := by
      cases o with
      | none => rfl
      | some p => exact congrArg some (ho p rfl).normal
    rw [IsNormal, subst_applied, hargs, howner]
    rfl
  · intro v hv
    rcases mem_references_applied.mp hv with ⟨p, hp, hv⟩ | ⟨a, ha, hv⟩
    · exact (ho p hp).references v hv
    · exact (has a ha).references v hv

end JvmTypes.Shape
