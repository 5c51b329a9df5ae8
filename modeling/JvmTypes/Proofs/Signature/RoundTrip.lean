import JvmTypes.Proofs.Signature.Acceptance
/-!
# Reading what was written

A well-formed tree is read back from its own text. The one thing that a text cannot say is a type
parameter without bounds in front of another one.
-/
namespace JvmTypes.Signature

theorem TypeParametersSpell.bounded {ps : List TypeParameter} {w : List Char}
    (h : TypeParametersSpell ps w) : Bounded ps := by
  cases h with
  | none => rintro p ⟨⟩
  | some hbounded => exact hbounded

theorem TypeTree.parse_text {t : TypeTree} (href : t.isReference) (ht : t.isWellFormed) :
    parse t.text = .ok t := by
  rw [parse_eq_ok, text, String.toList_ofList]
  exact ⟨href, spells_write ht⟩

theorem MethodSignature.parse_text {s : MethodSignature} (hs : s.isWellFormed)
    (hbounded : Bounded s.typeParameters) : parse s.text = .ok s := by
  rw [parse_eq_ok, text, String.toList_ofList]
  exact spells_write hs hbounded

theorem ClassSignature.parse_text {s : ClassSignature} (hs : s.isWellFormed)
    (hbounded : Bounded s.typeParameters) : parse s.text = .ok s := by
  rw [parse_eq_ok, text, String.toList_ofList]
  exact spells_write hs hbounded

theorem parse_text_iff_bounded :
    (∀ t : TypeTree, t.isReference → t.isWellFormed → TypeTree.parse t.text = .ok t) ∧
    (∀ s : MethodSignature, s.isWellFormed →
      (MethodSignature.parse s.text = .ok s ↔ Bounded s.typeParameters)) ∧
    (∀ s : ClassSignature, s.isWellFormed →
      (ClassSignature.parse s.text = .ok s ↔ Bounded s.typeParameters)) := by
  refine ⟨fun t href ht => t.parse_text href ht, fun s hs => ⟨fun h => ?_, s.parse_text hs⟩,
    fun s hs => ⟨fun h => ?_, s.parse_text hs⟩⟩
  · obtain ⟨u, v, w, x, hu, _⟩ := MethodSignature.parse_eq_ok.mp h
    exact hu.bounded
  · obtain ⟨u, v, x, hu, _⟩ := ClassSignature.parse_eq_ok.mp h
    exact hu.bounded

/-- A member of an applied class, `<A::Lp/I;B:>(TA;I)TB;^TB;` and a class whose first parameter has
no bound, which is not read back. -/
theorem parse_text_of_samples :
    let member : TypeTree :=
      .classType (.member (.top "p" "Outer" [.exact (.variable "T"), .any]) "Inner" [])
    let interface : TypeTree := .classType (.top "p" "I" [])
    let method : MethodSignature :=
      ⟨[⟨"A", none, [interface]⟩, ⟨"B", none, []⟩], [.variable "A", .base .int],
        some (.variable "B"), [.variable "B"]⟩
    let class' : ClassSignature :=
      ⟨[⟨"B", none, []⟩, ⟨"A", none, [interface]⟩], .top "p" "Outer" [], []⟩
    TypeTree.parse member.text = .ok member ∧ MethodSignature.parse method.text = .ok method ∧
      ClassSignature.parse class'.text ≠ .ok class' := by
  intro member interface method class'
  obtain ⟨hfield, hmethod, hclass⟩ := parse_text_iff_bounded
  refine ⟨hfield member rfl (by decide +kernel), (hmethod method (by decide +kernel)).mpr ?_,
    fun h => ?_⟩
  · rintro p (_ | ⟨_, ⟨⟩⟩)
    exact List.cons_ne_nil _ _
  · exact (hclass class' (by decide +kernel)).mp h _ (List.mem_cons_self ..) rfl

end JvmTypes.Signature
