import JvmTypes.Proofs.Annotation.Sameness
/-!
# Identity of tokens

Identical tokens agree in all that a token holds, constants by value. Among tokens without a NaN
this is an equivalence, and a token that is attached and detached again is identical to what it was
exactly if nothing has changed. A token with a NaN is identical to none, not even to itself.
-/
namespace JvmTypes.MethodToken

/-- The token without the signs of the zeros in its annotations and its default value. -/
def unsigned (t : MethodToken) : MethodToken :=
  { t with
    annotations := t.annotations.map Annotation.unsigned
    defaultValue := t.defaultValue.map ElementValue.unsigned }

variable {s : Store} {t t' u : MethodToken} {m : Method} {owner : ClassId} {σ : Substitution}

theorem isIdenticalTo_iff : t.isIdenticalTo u = true ↔
    t.toDecl.hasNaN = false ∧ u.toDecl.hasNaN = false ∧ t.unsigned = u.unsigned := by
  simp only [isIdenticalTo, unsigned, toDecl, MethodDecl.hasNaN, Bool.and_eq_true,
    Bool.or_eq_false_iff, decide_eq_true_eq, Annotation.sameAll_iff, ElementValue.sameOption_iff,
    MethodToken.mk.injEq]
  tauto

theorem isIdenticalTo_self_iff : t.isIdenticalTo t = true ↔ t.toDecl.hasNaN = false := by
  rw [isIdenticalTo_iff]
  tauto

theorem IsIdenticalTo.symm (h : t.isIdenticalTo u = true) : u.isIdenticalTo t = true := by
  obtain ⟨ht, hu, heq⟩ := isIdenticalTo_iff.mp h
  exact isIdenticalTo_iff.mpr ⟨hu, ht, heq.symm⟩

theorem IsIdenticalTo.trans {v : MethodToken} (h : t.isIdenticalTo u = true)
    (h' : u.isIdenticalTo v = true) : t.isIdenticalTo v = true := by
  obtain ⟨ht, _, heq⟩ := isIdenticalTo_iff.mp h
  obtain ⟨_, hv, heq'⟩ := isIdenticalTo_iff.mp h'
  exact isIdenticalTo_iff.mpr ⟨ht, hv, heq.trans heq'⟩

theorem decl_of_attach (h : t.attach s owner = .ok m) :
    m.internalName = t.internalName ∧ m.flags = t.flags ∧ m.decl.annotations = t.annotations ∧
      m.decl.defaultValue = t.defaultValue := by
  rw [attach] at h
  split at h
  · obtain rfl := Except.ok.inj h
    exact ⟨rfl, rfl, rfl, rfl⟩
  · cases h

theorem attributes_of_detachWith (h : m.detachWith σ = .ok t') :
    t'.internalName = m.internalName ∧ t'.flags = m.flags ∧ t'.annotations = m.decl.annotations ∧
      t'.defaultValue = m.decl.defaultValue := by
  rw [Method.detachWith] at h
  cases hp : m.parameters with
  | error e =>
    rw [hp] at h
    cases h
  | ok ps =>
    rw [hp] at h
    obtain rfl := Except.ok.inj h
    exact ⟨rfl, rfl, rfl, rfl⟩

theorem isIdenticalTo_of_reattached (hattach : t.attach s owner = .ok m)
    (hdetach : m.detachWith σ = .ok t') : t'.isIdenticalTo t = true ↔
      t.toDecl.hasNaN = false ∧ t'.typeVariables = t.typeVariables ∧
        t'.returnType = t.returnType ∧ t'.parameters = t.parameters ∧
        t'.exceptions = t.exceptions := by
  obtain ⟨hname, hflags, hannotations, hdefault⟩ := decl_of_attach hattach
  obtain ⟨hname', hflags', hannotations', hdefault'⟩ := attributes_of_detachWith hdetach
  have hnan : t'.toDecl.hasNaN = t.toDecl.hasNaN := by
    simp only [toDecl, MethodDecl.hasNaN, hannotations', hannotations, hdefault', hdefault]
  rw [isIdenticalTo_iff, hnan]
  simp only [unsigned, MethodToken.mk.injEq, hname', hname, hflags', hflags, hannotations',
    hannotations, hdefault', hdefault]
  tauto

/-- Identical tokens are those without a NaN that agree but for the signs of zeros. So identity is
symmetric and transitive, and it holds between a token and itself exactly if the token has no NaN;
then, and only then, a token that is attached and detached unchanged is identical to what it was. -/
theorem identity_is_equivalence_without_nan (t u v : MethodToken) :
    (t.isIdenticalTo u = true ↔
      t.toDecl.hasNaN = false ∧ u.toDecl.hasNaN = false ∧ t.unsigned = u.unsigned) ∧
    (t.isIdenticalTo t = true ↔ t.toDecl.hasNaN = false) ∧
    (t.isIdenticalTo u = true → u.isIdenticalTo t = true) ∧
    (t.isIdenticalTo u = true → u.isIdenticalTo v = true → t.isIdenticalTo v = true) ∧
    (∀ (s : Store) (owner : ClassId) (m : Method) (σ : Substitution) (t' : MethodToken),
      t.attach s owner = .ok m → m.detachWith σ = .ok t' → (t'.isIdenticalTo t = true ↔
        t.toDecl.hasNaN = false ∧ t'.typeVariables = t.typeVariables ∧
          t'.returnType = t.returnType ∧ t'.parameters = t.parameters ∧
          t'.exceptions = t.exceptions)) := by
  refine ⟨isIdenticalTo_iff, isIdenticalTo_self_iff, IsIdenticalTo.symm, IsIdenticalTo.trans, ?_⟩
  intro s owner m σ t' hattach hdetach
  exact isIdenticalTo_of_reattached hattach hdetach

def rateToken (bits : UInt64) : MethodToken where
  internalName := "value"
  flags := .ofBits [AccessFlags.publicBit, AccessFlags.abstractBit]
  typeVariables := []
  returnType := .plain (.primitive .double)
  parameters := []
  exceptions := []
  annotations := []
  defaultValue := some (.constant (.double bits))

/-- The two zeros, as default values, leave a token identical, also once it was attached. -/
theorem rates_of_zero_are_identical :
    (rateToken 0x8000000000000000).isIdenticalTo (rateToken 0) = true ∧
    ∃ m, (rateToken 0).attach .initial .annotationType = .ok m ∧ ∃ token, m.toToken = .ok token ∧
      token.isIdenticalTo (rateToken 0) = true := by
  obtain ⟨hiff, _, _, _, _⟩ :=
    identity_is_equivalence_without_nan (rateToken 0x8000000000000000) (rateToken 0) (rateToken 0)
  obtain ⟨_, _, _, _, hreattached⟩ :=
    identity_is_equivalence_without_nan (rateToken 0) (rateToken 0) (rateToken 0)
  have hattach : (rateToken 0).attach .initial .annotationType =
      .ok (.ofDecl .annotationType (rateToken 0).toDecl) := rfl
  have hdetach : (Method.ofDecl .annotationType (rateToken 0).toDecl).toToken =
      .ok (rateToken 0) := rfl
  refine ⟨hiff.mpr ⟨by decide, by decide, rfl⟩, _, hattach, _, hdetach, ?_⟩
  exact (hreattached _ _ _ _ _ hattach hdetach).mpr ⟨by decide, rfl, rfl, rfl, rfl⟩

/-- With a NaN as its default value a token comes back from a class unchanged and is not identical
to itself. -/
theorem rate_of_nan_differs_from_itself :
    (rateToken 0x7ff8000000000000).isIdenticalTo (rateToken 0x7ff8000000000000) = false ∧
    ∃ m, (rateToken 0x7ff8000000000000).attach .initial .annotationType = .ok m ∧
      m.toToken = .ok (rateToken 0x7ff8000000000000) :=
  ⟨by decide +kernel, .ofDecl .annotationType (rateToken 0x7ff8000000000000).toDecl, rfl, rfl⟩

end JvmTypes.MethodToken
