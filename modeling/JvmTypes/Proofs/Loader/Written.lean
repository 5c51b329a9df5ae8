import JvmTypes.Method.Text
import JvmTypes.Proofs.Loader.ConversionVisibility
import JvmTypes.Proofs.Loader.Surroundings
import JvmTypes.Proofs.Signature.OfShape
/-!
# Writing what was converted

The tree that is written for a converted type is not the one that was read: segments are joined, a
bound by the root class is left out. It names the same classes and variables, though, and is
converted to the same shape in the same scope.
-/
namespace JvmTypes

namespace Signature

/-- The trees name the same class or the same variable, or neither of them names one. -/
inductive TypeTree.Alike : TypeTree → TypeTree → Prop
  | base (b : BaseType) : Alike (.base b) (.base b)
  | cls {c c' : ClassTree} (h : c'.internalName = c.internalName) :
      Alike (.classType c) (.classType c')
  | «variable» (name : String) : Alike (.variable name) (.variable name)
  | array {t t' : TypeTree} : Alike (.array t) (.array t')

theorem TypeTree.Alike.isReference {t t' : TypeTree} (h : t.Alike t') :
    t'.isReference = t.isReference := by
  cases h <;> rfl

theorem TypeTree.Alike.isThrowable {t t' : TypeTree} (h : t.Alike t') :
    t'.isThrowable = t.isThrowable := by
  cases h <;> rfl

end Signature

namespace Loader

open Signature

variable {s : Store} {sur : Surroundings}

abbrev Converts (s : Store) (sur : Surroundings) (t : TypeTree) (u : Shape) : Prop :=
  (Script.shape sur t).Ends (known s sur.enclosing) (some u)

theorem converts_classType {c : ClassTree} {u : Shape} :
    Converts s sur (.classType c) u ↔
      (Script.classShape sur c).Ends (known s sur.enclosing) (some u) := by
  rw [Converts, Script.shape]

/-- The tree is written for the shape, and it is converted to the shape. -/
structure Written (s : Store) (sur : Surroundings) (levels : Nat) (u : Shape) (t : TypeTree) :
    Prop where
  write : ofShape s levels u = .ok t
  wellFormed : t.isWellFormed
  convert : Converts s sur t u

structure WrittenArguments (s : Store) (sur : Surroundings) (levels : Nat) (us : List Shape)
    (as : List Argument) : Prop where
  write : ofArguments s levels us = .ok as
  wellFormed : areWellFormed as
  convert : (Script.arguments sur as).Ends (known s sur.enclosing) (some us)

theorem ends_classNamed_iff {c : ClassTree} {id : ClassId} {enclosing : Option ClassId} :
    (Script.classNamed c).Ends (known s enclosing) (some id) ↔
      s.lookup? (Name.toBinary c.internalName) = some id :=
  ⟨Script.ends_classNamed, fun h => .inl ⟨id, h, rfl⟩⟩

theorem written_applyTo {c : ClassTree} {raw : ClassId} {us : List Shape} {levels : Nat}
    (hwell : c.isWellFormed) (hnames : ∀ x ∈ c.identifiers, IsIdentifier x)
    (hraw : s.lookup? (Name.toBinary c.internalName) = some raw)
    (hus : ∀ levels, Shape.nestingOfArguments us ≤ levels →
      ∃ as, WrittenArguments s sur levels us as)
    (hn : (applyTo none raw us).nesting ≤ levels) :
    ∃ c', Written s sur levels (applyTo none raw us) (.classType c') ∧
      c'.internalName = c.internalName := by
  obtain ⟨package, name, hsplit, hwell', hinternal⟩ := ClassTree.exists_raw hwell hnames
  have htree : rawTree s raw = .top package name [] := by
    rw [rawTree_eq hraw (ClassTree.dot_not_mem hwell), ClassTree.raw_of_splitLast hsplit]
  cases us with
  | nil =>
    refine ⟨.top package name [], ⟨?_, hwell', ?_⟩, hinternal⟩
    · simp only [applyTo, List.isEmpty_nil, if_true, Shape.ofClass, ofShape, ofErased, htree]
    · rw [converts_classType, Script.classShape]
      refine Script.ends_bind_some.mpr ⟨raw, ends_classNamed_iff.mpr (by rwa [hinternal]), ?_⟩
      exact Script.ends_bind_some.mpr ⟨[], rfl, rfl⟩
  | cons u us =>
    have happlied : applyTo none raw (u :: us) = .applied raw (u :: us) none := rfl
    rw [happlied] at hn ⊢
    obtain ⟨n, rfl, hn, _⟩ := nesting_applied hn
    obtain ⟨as, has⟩ := hus n hn
    have howner : ofOwner s n raw none = .ok (.top package name []) := by simp only [ofOwner, htree]
    refine ⟨.top package name as, ⟨ofShape_applied howner has.write, ?_, ?_⟩, hinternal⟩
    · simp only [TypeTree.isWellFormed, ClassTree.isWellFormed, Bool.and_eq_true] at hwell' ⊢
      exact ⟨hwell'.1, has.wellFormed⟩
    · rw [converts_classType, Script.classShape]
      refine Script.ends_bind_some.mpr ⟨raw, ends_classNamed_iff.mpr ?_, ?_⟩
      · rw [← hinternal] at hraw
        exact hraw
      · exact Script.ends_bind_some.mpr ⟨_, has.convert, rfl⟩

mutual

theorem written_shape : ∀ {t : TypeTree} {u : Shape} {levels : Nat}, t.isWellFormed →
    (∀ x ∈ t.identifiers, IsIdentifier x) →
    Converts s sur t u → u.nesting ≤ levels →
    ∃ t', Written s sur levels u t' ∧ t.Alike t'
  | .base b, u, levels, hwell, hnames, h, hn => by
    obtain rfl := Option.some.inj h
    exact ⟨.base b, ⟨by rw [ofShape, ofErased], rfl, h⟩, .base b⟩
  | .classType c, u, levels, hwell, hnames, h, hn => by
    rw [converts_classType] at h
    obtain ⟨c', hc, hname⟩ := @written_classShape c u levels hwell hnames h hn
    exact ⟨.classType c', hc, .cls hname⟩
  | .variable name, u, levels, hwell, hnames, h, hn => by
    obtain ⟨v, hv, hu⟩ := Script.ends_bind_some.mp h
    obtain rfl := Option.some.inj hu
    have hsymbol := Script.symbol_of_variableNamed (definite_known s _) hv
    exact ⟨.variable name, ⟨by rw [ofShape, hsymbol], hwell, h⟩, .variable name⟩
  | .array c, u, levels, hwell, hnames, h, hn => by
    obtain ⟨c', hc, hu⟩ := Script.ends_bind_some.mp h
    obtain rfl := Option.some.inj hu
    obtain ⟨n, hn, harray⟩ := ofShape_arrayOf (s := s) hn
    obtain ⟨t', ht, _⟩ := written_shape (t := c) hwell hnames hc hn
    refine ⟨.array t', ⟨harray t' ht.write, ht.wellFormed, ?_⟩, .array⟩
    exact Script.ends_bind_some.mpr ⟨c', ht.convert, rfl⟩

theorem written_classShape : ∀ {c : ClassTree} {u : Shape} {levels : Nat}, c.isWellFormed →
    (∀ x ∈ c.identifiers, IsIdentifier x) →
    (Script.classShape sur c).Ends (known s sur.enclosing) (some u) → u.nesting ≤ levels →
    ∃ c', Written s sur levels u (.classType c') ∧ c'.internalName = c.internalName
  | .top package name as, u, levels, hwell, hnames, h, hn => by
    obtain ⟨raw, hraw, h⟩ := Script.ends_bind_some.mp h
    obtain ⟨us, hus, hu⟩ := Script.ends_bind_some.mp h
    obtain rfl := Option.some.inj hu
    have has := hwell
    rw [ClassTree.isWellFormed, Bool.and_eq_true] at has
    exact written_applyTo hwell hnames (ends_classNamed_iff.mp hraw)
      (fun n hn => written_arguments has.2
        (fun x hx => hnames x (by simp [ClassTree.identifiers, hx])) hus hn) hn
  | .member outer name as, u, levels, hwell, hnames, h, hn => by
    obtain ⟨owner, howner, h⟩ := Script.ends_bind_some.mp h
    obtain ⟨raw, hraw, h⟩ := Script.ends_bind_some.mp h
    obtain ⟨us, hus, hu⟩ := Script.ends_bind_some.mp h
    obtain rfl := Option.some.inj hu
    have hraw := ends_classNamed_iff.mp hraw
    have hparts := hwell
    simp only [ClassTree.isWellFormed, Bool.and_eq_true] at hparts
    obtain ⟨⟨houter, hname⟩, has⟩ := hparts
    have harguments : ∀ n, Shape.nestingOfArguments us ≤ n →
        ∃ as', WrittenArguments s sur n us as' := fun n hn =>
      written_arguments has (fun x hx => hnames x (by simp [ClassTree.identifiers, hx])) hus hn
    -- Only an applied class stays the owner of its member; any other is part of the member's name.
    rcases Script.classShape_cases howner with ⟨e, rfl⟩ | ⟨raw', us', owner', rfl⟩
    · exact written_applyTo hwell hnames hraw harguments hn
    · obtain ⟨n, rfl, hn, hn'⟩ := nesting_applied hn
      obtain ⟨as', has'⟩ := harguments n hn
      obtain ⟨outer', ho, hinternal⟩ := written_classShape houter
        (fun x hx => hnames x (by simp [ClassTree.identifiers, hx])) howner hn'
      rw [ClassTree.internalName, ← hinternal] at hraw
      have hdot := ClassTree.dot_not_mem hwell
      rw [ClassTree.internalName, ← hinternal] at hdot
      have hmember := (ofOwner_applied ho.write).trans (memberTree_eq hraw hdot)
      have hconvert := ho.convert
      rw [converts_classType] at hconvert
      refine ⟨.member outer' name as', ⟨ofShape_applied hmember has'.write, ?_, ?_⟩, ?_⟩
      · simp only [TypeTree.isWellFormed, ClassTree.isWellFormed, Bool.and_eq_true]
        exact ⟨⟨ho.wellFormed, hname⟩, has'.wellFormed⟩
      · refine Script.ends_bind_some.mpr ⟨_, hconvert, ?_⟩
        refine Script.ends_bind_some.mpr ⟨raw, ends_classNamed_iff.mpr hraw, ?_⟩
        exact Script.ends_bind_some.mpr ⟨us, has'.convert, rfl⟩
      · rw [ClassTree.internalName, ClassTree.internalName, hinternal]

theorem written_arguments : ∀ {as : List Argument} {us : List Shape} {levels : Nat},
    areWellFormed as → (∀ x ∈ argumentIdentifiers as, IsIdentifier x) →
    (Script.arguments sur as).Ends (known s sur.enclosing) (some us) →
    Shape.nestingOfArguments us ≤ levels → ∃ as', WrittenArguments s sur levels us as'
  | [], us, levels, _, _, h, _ => by
    obtain rfl := Option.some.inj h
    exact ⟨[], by rw [ofArguments], rfl, h⟩
  | a :: as, us, levels, hwell, hnames, h, hn => by
    obtain ⟨u, hu, h⟩ := Script.ends_bind_some.mp h
    obtain ⟨us, hus, h⟩ := Script.ends_bind_some.mp h
    obtain rfl := Option.some.inj h
    rw [areWellFormed, Bool.and_eq_true] at hwell
    rw [Shape.nestingOfArguments] at hn
    obtain ⟨hn, hns⟩ := Nat.max_le.mp hn
    obtain ⟨a', hwrite, hwell', hconvert⟩ := written_argument hwell.1
      (fun x hx => hnames x (by simp [argumentIdentifiers, hx])) hu hn
    obtain ⟨as', has⟩ := written_arguments hwell.2
      (fun x hx => hnames x (by simp [argumentIdentifiers, hx])) hus hns
    refine ⟨a' :: as', ?_, ?_, ?_⟩
    · rw [ofArguments, hwrite, has.write]
      rfl
    · rw [areWellFormed, hwell', has.wellFormed]
      rfl
    · refine Script.ends_bind_some.mpr ⟨u, hconvert, ?_⟩
      exact Script.ends_bind_some.mpr ⟨us, has.convert, rfl⟩

theorem written_argument : ∀ {a : Argument} {u : Shape} {levels : Nat},
    a.isWellFormed → (∀ x ∈ a.identifiers, IsIdentifier x) →
    (Script.argument sur a).Ends (known s sur.enclosing) (some u) → u.nesting ≤ levels →
    ∃ a', ofArgument s levels u = .ok a' ∧ a'.isWellFormed ∧
      (Script.argument sur a').Ends (known s sur.enclosing) (some u)
  | .any, u, levels, _, _, h, _ => by
    obtain rfl := Option.some.inj h
    exact ⟨.any, by rw [Shape.unbounded, Shape.object, Shape.ofClass, ofArgument]; rfl, rfl, h⟩
  | .exact t, u, levels, hwell, hnames, h, hn => by
    rw [Argument.isWellFormed, Bool.and_eq_true] at hwell
    obtain ⟨t', ht, halike⟩ := written_shape hwell.2 hnames h hn
    refine ⟨.exact t', ofArgument_exact ht.write, ?_, ht.convert⟩
    rw [Argument.isWellFormed, halike.isReference, hwell.1, ht.wellFormed]
    rfl
  | .extends t, u, levels, hwell, hnames, h, hn => by
    rw [Argument.isWellFormed, Bool.and_eq_true] at hwell
    obtain ⟨b, hb, hu⟩ := Script.ends_bind_some.mp h
    obtain rfl := Option.some.inj hu
    obtain ⟨t', ht, halike⟩ := written_shape hwell.2 hnames hb hn
    -- A wildcard bounded by the root class is written without the bound.
    rcases ofArgument_upper ht.write with ⟨rfl, hwrite⟩ | hwrite
    · exact ⟨.any, hwrite, rfl, rfl⟩
    · refine ⟨.extends t', hwrite, ?_, Script.ends_bind_some.mpr ⟨b, ht.convert, rfl⟩⟩
      rw [Argument.isWellFormed, halike.isReference, hwell.1, ht.wellFormed]
      rfl
  | .super t, u, levels, hwell, hnames, h, hn => by
    rw [Argument.isWellFormed, Bool.and_eq_true] at hwell
    obtain ⟨b, hb, hu⟩ := Script.ends_bind_some.mp h
    obtain rfl := Option.some.inj hu
    obtain ⟨t', ht, halike⟩ := written_shape hwell.2 hnames hb hn
    refine ⟨.super t', ofArgument_lower ht.write, ?_,
      Script.ends_bind_some.mpr ⟨b, ht.convert, rfl⟩⟩
    rw [Argument.isWellFormed, halike.isReference, hwell.1, ht.wellFormed]
    rfl

end

end Loader

end JvmTypes
