import JvmTypes.Proofs.Loader.WrittenDeclarations
import JvmTypes.Proofs.Signature.Canonical
import JvmTypes.Proofs.Signature.RoundTrip
/-!
# Writing canonical signatures

A canonical type is written as it was read. So is a canonical signature, but for one thing: the
loader does not keep behind how many colons a bound stood, and the writer goes by what the first
bound erases to.
-/
namespace JvmTypes

theorem Shape.generic_or_plain (u : Shape) :
    (u.isGeneric ∧ u.arrayOf = .array u) ∨ ∃ e, u = .plain e := by
  cases u with
  | plain e => exact Or.inr ⟨e, rfl⟩
  | array | applied | upper | lower | «variable» => exact Or.inl ⟨rfl, rfl⟩

/-- The first bound is a type variable that erases to an interface. -/
def TypeVarDecl.extendsInterfaceVariable (s : Store) (v : TypeVarDecl) : Bool :=
  match v.bounds.head? with
  | some (.variable r) => r.erasure.isInterface s
  | _ => false

namespace Loader

open Signature

variable {s : Store} {sur : Surroundings} {A : Answers}

namespace Script

theorem isEmpty_of_arguments {as : List Argument} {us : List Shape}
    (h : (arguments sur as).Ends A (some us)) : us.isEmpty = as.isEmpty := by
  cases as with
  | nil =>
    obtain rfl := Option.some.inj h
    rfl
  | cons a as =>
    obtain ⟨u, _, h⟩ := ends_bind_some.mp h
    obtain ⟨us, _, h⟩ := ends_bind_some.mp h
    obtain rfl := Option.some.inj h
    rfl

theorem isGeneric_of_classShape : ∀ {c : ClassTree} {u : Shape},
    (classShape sur c).Ends A (some u) → u.isGeneric = c.isGeneric
  | .top package name as, u, h => by
    obtain ⟨raw, _, h⟩ := ends_bind_some.mp h
    obtain ⟨us, hus, hu⟩ := ends_bind_some.mp h
    obtain rfl := Option.some.inj hu
    rw [ClassTree.isGeneric, ← isEmpty_of_arguments hus]
    cases us with
    | nil => rfl
    | cons u us => rfl
  | .member outer name as, u, h => by
    obtain ⟨owner, howner, h⟩ := ends_bind_some.mp h
    obtain ⟨raw, _, h⟩ := ends_bind_some.mp h
    obtain ⟨us, hus, hu⟩ := ends_bind_some.mp h
    obtain rfl := Option.some.inj hu
    rw [ClassTree.isGeneric, ← isEmpty_of_arguments hus, ← isGeneric_of_classShape howner]
    rcases classShape_cases howner with ⟨e, rfl⟩ | ⟨raw', us', owner', rfl⟩
    · cases us with
      | nil => rfl
      | cons u us => rfl
    · rfl

theorem isGeneric_of_shape : ∀ {t : TypeTree} {u : Shape},
    (shape sur t).Ends A (some u) → u.isGeneric = t.isGeneric
  | .base b, u, h => by
    obtain rfl := Option.some.inj h
    rfl
  | .classType c, u, h => by
    rw [shape] at h
    exact isGeneric_of_classShape h
  | .variable name, u, h => by
    obtain ⟨v, _, hu⟩ := ends_bind_some.mp h
    obtain rfl := Option.some.inj hu
    rfl
  | .array c, u, h => by
    obtain ⟨c', hc, hu⟩ := ends_bind_some.mp h
    obtain rfl := Option.some.inj hu
    rw [TypeTree.isGeneric, ← isGeneric_of_shape hc]
    cases c' <;> rfl

end Script

theorem raw_internalName {package name : String} {as : List Argument} (hname : '/' ∉ name.toList) :
    ClassTree.raw (ClassTree.top package name as).internalName = .top package name [] := by
  refine ClassTree.raw_of_splitLast ?_
  rw [← splitLast_written hname, ClassTree.internalName]
  by_cases hp : package = ""
  · simp [hp]
  · simp [hp]

theorem ofShape_applyTo {package name : String} {as : List Argument} {raw : ClassId}
    {us : List Shape} {levels : Nat} (hwell : (ClassTree.top package name as).isWellFormed)
    (hnames : ∀ x ∈ (ClassTree.top package name as).identifiers, IsIdentifier x)
    (hraw : s.lookup? (Name.toBinary (ClassTree.top package name as).internalName) = some raw)
    (hempty : us.isEmpty = as.isEmpty)
    (hus : ∀ levels, nestingOfArguments as ≤ levels → ofArguments s levels us = .ok as)
    (hn : (ClassTree.top package name as).nesting ≤ levels) :
    ofShape s levels (applyTo none raw us) = .ok (.classType (.top package name as)) := by
  have hslash : '/' ∉ name.toList := fun hmem =>
    (hnames name.toList (by simp [ClassTree.identifiers])).2 _ hmem (by decide)
  have htree : rawTree s raw = .top package name [] := by
    rw [rawTree_eq hraw (ClassTree.dot_not_mem hwell), raw_internalName hslash]
  cases as with
  | nil =>
    obtain rfl := List.isEmpty_iff.mp hempty
    simp only [applyTo, List.isEmpty_nil, if_true, Shape.ofClass, ofShape, ofErased, htree]
  | cons a as =>
    have happlied : applyTo none raw us = .applied raw us none := by
      simp only [applyTo, hempty, List.isEmpty_cons, Bool.false_eq_true, if_false]
    rw [ClassTree.nesting, if_neg (by simp)] at hn
    obtain ⟨n, rfl⟩ : ∃ n, levels = n + 1 := ⟨levels - 1, by omega⟩
    have howner : ofOwner s n raw none = .ok (.top package name []) := by simp only [ofOwner, htree]
    rw [happlied]
    exact ofShape_applied howner (hus n (by omega))

mutual

theorem ofShape_of_canonical (hobject : s.lookup? "java.lang.Object" = some .object) :
    ∀ {t : TypeTree} {u : Shape} {levels : Nat}, t.isWellFormed →
    (∀ x ∈ t.identifiers, IsIdentifier x) → t.isCanonical → Converts s sur t u →
    t.nesting ≤ levels → ofShape s levels u = .ok t
  | .base b, u, levels, hwell, hnames, hcanonical, h, hn => by
    obtain rfl := Option.some.inj h
    rw [ofShape, ofErased]
  | .classType c, u, levels, hwell, hnames, hcanonical, h, hn => by
    rw [converts_classType] at h
    exact ofShape_of_canonicalClass hobject hwell hnames hcanonical h hn
  | .variable name, u, levels, hwell, hnames, hcanonical, h, hn => by
    obtain ⟨v, hv, hu⟩ := Script.ends_bind_some.mp h
    obtain rfl := Option.some.inj hu
    rw [ofShape, Script.symbol_of_variableNamed (definite_known s _) hv]
  | .array c, u, levels, hwell, hnames, hcanonical, h, hn => by
    obtain ⟨u, hu, harray⟩ := Script.ends_bind_some.mp h
    obtain rfl := Option.some.inj harray
    have hwrite : ∀ n, c.nesting ≤ n → ofShape s n u = .ok c :=
      fun n hn => ofShape_of_canonical hobject (t := c) hwell hnames hcanonical hu hn
    rcases Shape.generic_or_plain u with ⟨hgeneric, harray⟩ | ⟨e, rfl⟩
    · rw [Script.isGeneric_of_shape hu] at hgeneric
      rw [TypeTree.nesting, if_pos hgeneric] at hn
      obtain ⟨n, rfl⟩ : ∃ n, levels = n + 1 := ⟨levels - 1, by omega⟩
      rw [harray, ofShape, hwrite n (by omega)]
      rfl
    · have hplain := hwrite c.nesting le_rfl
      rw [ofShape] at hplain
      rw [Shape.arrayOf, ofShape, ofErased, hplain]
      rfl

theorem ofShape_of_canonicalClass (hobject : s.lookup? "java.lang.Object" = some .object) :
    ∀ {c : ClassTree} {u : Shape} {levels : Nat},
    c.isWellFormed → (∀ x ∈ c.identifiers, IsIdentifier x) → c.isCanonical →
    (Script.classShape sur c).Ends (known s sur.enclosing) (some u) → c.nesting ≤ levels →
    ofShape s levels u = .ok (.classType c)
  | .top package name as, u, levels, hwell, hnames, hcanonical, h, hn => by
    obtain ⟨raw, hraw, h⟩ := Script.ends_bind_some.mp h
    obtain ⟨us, hus, hu⟩ := Script.ends_bind_some.mp h
    obtain rfl := Option.some.inj hu
    have has := hwell
    rw [ClassTree.isWellFormed, Bool.and_eq_true] at has
    exact ofShape_applyTo hwell hnames (ends_classNamed_iff.mp hraw)
      (Script.isEmpty_of_arguments hus)
      (fun n hn => ofArguments_of_canonical hobject has.2
        (fun x hx => hnames x (by simp [ClassTree.identifiers, hx])) hcanonical hus hn) hn
  | .member outer name as, u, levels, hwell, hnames, hcanonical, h, hn => by
    obtain ⟨owner, howner, h⟩ := Script.ends_bind_some.mp h
    obtain ⟨raw, hraw, h⟩ := Script.ends_bind_some.mp h
    obtain ⟨us, hus, hu⟩ := Script.ends_bind_some.mp h
    obtain rfl := Option.some.inj hu
    have hdot := ClassTree.dot_not_mem hwell
    simp only [ClassTree.isWellFormed, Bool.and_eq_true] at hwell
    simp only [ClassTree.isCanonical, Bool.and_eq_true] at hcanonical
    obtain ⟨⟨houter, _⟩, has⟩ := hwell
    obtain ⟨⟨hgeneric, houterCanonical⟩, hasCanonical⟩ := hcanonical
    rw [ClassTree.nesting] at hn
    obtain ⟨n, rfl⟩ : ∃ n, levels = n + 1 := ⟨levels - 1, by omega⟩
    have hwriteOuter : ofShape s n owner = .ok (.classType outer) :=
      ofShape_of_canonicalClass hobject houter
        (fun x hx => hnames x (by simp [ClassTree.identifiers, hx])) houterCanonical howner
        (by omega)
    have hwriteArguments : ofArguments s n us = .ok as :=
      ofArguments_of_canonical hobject has
        (fun x hx => hnames x (by simp [ClassTree.identifiers, hx])) hasCanonical hus (by omega)
    -- A segment before this one has arguments, so the class stays a member of an applied class.
    obtain ⟨raw', us', owner', rfl⟩ : ∃ raw' us' owner', owner = .applied raw' us' owner' := by
      rcases Script.classShape_cases howner with ⟨e, rfl⟩ | h
      · rw [← Script.isGeneric_of_classShape howner] at hgeneric
        simp [Shape.isGeneric, Shape.kind] at hgeneric
      · exact h
    have hlookup := ends_classNamed_iff.mp hraw
    rw [ClassTree.internalName] at hlookup hdot
    have hmember := (ofOwner_applied hwriteOuter).trans (memberTree_eq hlookup hdot)
    exact ofShape_applied hmember hwriteArguments

theorem ofArguments_of_canonical (hobject : s.lookup? "java.lang.Object" = some .object) :
    ∀ {as : List Argument} {us : List Shape} {levels : Nat},
    areWellFormed as → (∀ x ∈ argumentIdentifiers as, IsIdentifier x) → areCanonical as →
    (Script.arguments sur as).Ends (known s sur.enclosing) (some us) →
    nestingOfArguments as ≤ levels → ofArguments s levels us = .ok as
  | [], us, levels, _, _, _, h, _ => by
    obtain rfl := Option.some.inj h
    rw [ofArguments]
  | a :: as, us, levels, hwell, hnames, hcanonical, h, hn => by
    obtain ⟨u, hu, h⟩ := Script.ends_bind_some.mp h
    obtain ⟨us, hus, h⟩ := Script.ends_bind_some.mp h
    obtain rfl := Option.some.inj h
    rw [areWellFormed, Bool.and_eq_true] at hwell
    rw [areCanonical, Bool.and_eq_true] at hcanonical
    rw [nestingOfArguments] at hn
    obtain ⟨hn, hns⟩ := Nat.max_le.mp hn
    rw [ofArguments, ofArgument_of_canonical hobject hwell.1
        (fun x hx => hnames x (by simp [argumentIdentifiers, hx])) hcanonical.1 hu hn,
      ofArguments_of_canonical hobject hwell.2
        (fun x hx => hnames x (by simp [argumentIdentifiers, hx])) hcanonical.2 hus hns]
    rfl

theorem ofArgument_of_canonical (hobject : s.lookup? "java.lang.Object" = some .object) :
    ∀ {a : Argument} {u : Shape} {levels : Nat},
    a.isWellFormed → (∀ x ∈ a.identifiers, IsIdentifier x) → a.isCanonical →
    (Script.argument sur a).Ends (known s sur.enclosing) (some u) → a.nesting ≤ levels →
    ofArgument s levels u = .ok a
  | .any, u, levels, _, _, _, h, _ => by
    obtain rfl := Option.some.inj h
    rw [Shape.unbounded, Shape.object, Shape.ofClass, ofArgument]
    rfl
  | .exact t, u, levels, hwell, hnames, hcanonical, h, hn => by
    rw [Argument.isWellFormed, Bool.and_eq_true] at hwell
    exact ofArgument_exact (ofShape_of_canonical hobject hwell.2 hnames hcanonical h hn)
  | .extends t, u, levels, hwell, hnames, hcanonical, h, hn => by
    rw [Argument.isWellFormed, Bool.and_eq_true] at hwell
    rw [Argument.isCanonical, Bool.and_eq_true, decide_eq_true_eq] at hcanonical
    obtain ⟨b, hb, hu⟩ := Script.ends_bind_some.mp h
    obtain rfl := Option.some.inj hu
    have hwrite := ofShape_of_canonical hobject hwell.2 hnames hcanonical.2 hb hn
    rcases ofArgument_upper hwrite with ⟨rfl, _⟩ | hargument
    · have hroot := (written_root sur hobject levels).write
      rw [hwrite] at hroot
      obtain rfl := Except.ok.inj hroot
      exact absurd (by decide) hcanonical.1
    · exact hargument
  | .super t, u, levels, hwell, hnames, hcanonical, h, hn => by
    rw [Argument.isWellFormed, Bool.and_eq_true] at hwell
    obtain ⟨b, hb, hu⟩ := Script.ends_bind_some.mp h
    obtain rfl := Option.some.inj hu
    exact ofArgument_lower (ofShape_of_canonical hobject hwell.2 hnames hcanonical hb hn)

end

section Lists

theorem mapM_eq_of_forall₂ {f : β → Except ε α} {R : α → β → Prop} {as : List α} {bs : List β}
    (h : List.Forall₂ R as bs) (hf : ∀ a ∈ as, ∀ b ∈ bs, R a b → f b = .ok a) :
    bs.mapM f = .ok as := by
  obtain ⟨cs, hcs, _, heq⟩ := mapM_of_forall₂ (W := fun _ _ => True) (S := Eq) h
    fun a ha b hb hab => ⟨a, hf a ha b hb hab, trivial, rfl⟩
  rw [List.forall₂_eq_eq_eq] at heq
  rw [hcs, heq]

variable (hobject : s.lookup? "java.lang.Object" = some .object)
include hobject

theorem shape_of_canonical (sur : Surroundings) {t : TypeTree} {u : Shape} (ht : t.IsWritable)
    (h : Converts s sur t u) : u.signature s = .ok t :=
  ofShape_of_canonical hobject ht.wellFormed ht.identifiers ht.canonical h ht.nesting

theorem shapes_of_canonical (sur : Surroundings) {ts : List TypeTree} {us : List Shape}
    (hts : ∀ t ∈ ts, t.IsWritable) (h : List.Forall₂ (Converts s sur) ts us) :
    us.mapM (Shape.signature s) = .ok ts :=
  mapM_eq_of_forall₂ h fun t ht _ _ hend => shape_of_canonical hobject sur (hts t ht) hend

theorem classSignature_of_canonical (sur : Surroundings) {c : ClassTree} {u : Shape}
    (hc : (TypeTree.classType c).IsWritable)
    (h : (Script.classShape sur c).Ends (known s sur.enclosing) (some u)) :
    u.classSignature s = .ok c := by
  rw [Shape.classSignature, shape_of_canonical hobject sur hc (converts_classType.mpr h)]
  rfl

end Lists

/-! ### Type parameters -/

theorem isInterface_of_classShape {c : ClassTree} {u : Shape}
    (h : (Script.classShape sur c).Ends (known s sur.enclosing) (some u)) :
    (u.erasure?.map (Erased.isInterface s)).getD false = c.isInterface s := by
  obtain ⟨id, hid, herasure⟩ := Script.erasure?_of_classShape h
  rw [herasure, ClassTree.isInterface, ends_classNamed_iff.mp hid]
  rfl

theorem extendsInterfaceVariable_of_classShape {c : ClassTree} {u : Shape} {us : List Shape}
    {v : TypeVarDecl} (h : (Script.classShape sur c).Ends A (some u)) (hv : v.bounds = u :: us) :
    v.extendsInterfaceVariable s = false := by
  rw [TypeVarDecl.extendsInterfaceVariable, hv]
  rcases Script.classShape_cases h with ⟨e, rfl⟩ | ⟨raw, as, o, rfl⟩
  · rfl
  · rfl

theorem parameter_eq {v : TypeVarDecl} {u : Shape} {us : List Shape} {t : TypeTree}
    {ts : List TypeTree} (hv : v.bounds = u :: us)
    (hwrite : v.bounds.mapM (Shape.signature s) = .ok (t :: ts)) :
    v.parameter s = .ok (if (u.erasure?.map (Erased.isInterface s)).getD false
      then ⟨v.symbol, none, t :: ts⟩ else ⟨v.symbol, some t, ts⟩) := by
  have hfirst : v.bounds.head?.bind Shape.erasure? = u.erasure? := by rw [hv]; rfl
  rw [TypeVarDecl.parameter, hwrite, hfirst]
  cases (u.erasure?.map (Erased.isInterface s)).getD false <;> rfl

/-- A canonical type parameter is written as it was read, unless its class bound is a variable that
erases to an interface: then that stands behind two colons. -/
theorem parameter_of_canonical (hobject : s.lookup? "java.lang.Object" = some .object)
    {p : TypeParameter} {v : TypeVarDecl} (hp : p.IsCanonical s)
    (hbounds : ∀ t ∈ p.bounds, t.IsWritable)
    (h : (Script.typeVariable sur p).Ends (known s sur.enclosing) (some v)) :
    ∃ p', v.parameter s = .ok p' ∧ p'.name = p.name ∧ p'.bounds = p.bounds ∧
      (p' = p ↔ ¬ v.extendsInterfaceVariable s) := by
  obtain ⟨hsymbol, ⟨hnil, _⟩ | hall⟩ := Script.ends_typeVariable h
  · exact absurd hnil hp.bounded
  have hwrite := shapes_of_canonical hobject sur hbounds hall
  obtain ⟨t, ts, hts⟩ := List.exists_cons_of_ne_nil hp.bounded
  rw [hts] at hall hwrite
  obtain ⟨u, us, hu, _, hv⟩ := List.forall₂_cons_left_iff.mp hall
  have hparameter := parameter_eq hv hwrite
  rw [hsymbol] at hparameter
  rw [hts]
  rcases hp.first hts with
    ⟨heq, c, rfl, hinterface⟩ | ⟨heq, ⟨name, rfl⟩ | ⟨c, rfl, hclass⟩⟩
  · rw [Script.shape] at hu
    rw [isInterface_of_classShape hu, if_pos hinterface, ← heq] at hparameter
    refine ⟨p, hparameter, rfl, hts, ?_⟩
    simp [extendsInterfaceVariable_of_classShape hu hv]
  · obtain ⟨r, _, hr⟩ := Script.ends_bind_some.mp hu
    obtain rfl := Option.some.inj hr
    have hfirst : v.extendsInterfaceVariable s = r.erasure.isInterface s := by
      rw [TypeVarDecl.extendsInterfaceVariable, hv]
      rfl
    change v.parameter s = .ok (if r.erasure.isInterface s then _ else _) at hparameter
    rw [← hfirst] at hparameter
    cases hflag : v.extendsInterfaceVariable s with
    | true =>
      rw [hflag, if_pos rfl] at hparameter
      refine ⟨_, hparameter, rfl, rfl, ?_⟩
      rw [heq]
      simp
    | false =>
      rw [hflag, if_neg Bool.false_ne_true, ← heq] at hparameter
      exact ⟨p, hparameter, rfl, hts, by simp⟩
  · rw [Script.shape] at hu
    rw [isInterface_of_classShape hu, if_neg hclass, ← heq] at hparameter
    refine ⟨p, hparameter, rfl, hts, ?_⟩
    simp [extendsInterfaceVariable_of_classShape hu hv]

theorem parameters_of_canonical (hobject : s.lookup? "java.lang.Object" = some .object)
    (sur : Surroundings) {ps : List TypeParameter} {vs : List TypeVarDecl}
    (hwell : ∀ p ∈ ps, p.isWellFormed) (hps : ∀ p ∈ ps, p.IsCanonical s)
    (hbounds : ∀ p ∈ ps, ∀ t ∈ p.bounds, t.IsWritable)
    (h : List.Forall₂ (fun p v => (Script.typeVariable sur p).Ends (known s sur.enclosing) (some v))
      ps vs) :
    ∃ ps', vs.mapM (TypeVarDecl.parameter s) = .ok ps' ∧
      (∀ p ∈ ps', p.isWellFormed ∧ p.bounds ≠ []) ∧
      (ps' = ps ↔ ∀ v ∈ vs, ¬ v.extendsInterfaceVariable s) := by
  induction h with
  | nil => exact ⟨[], rfl, by simp, by simp⟩
  | @cons p v ps vs hv _ ih =>
    obtain ⟨hpwell, hpswell⟩ := List.forall_mem_cons.mp hwell
    obtain ⟨hp, hps⟩ := List.forall_mem_cons.mp hps
    obtain ⟨hpbounds, hpsbounds⟩ := List.forall_mem_cons.mp hbounds
    obtain ⟨p', hp', hname, hsameBounds, hsame⟩ := parameter_of_canonical hobject hp hpbounds hv
    obtain ⟨ps', hps', hgood, hsames⟩ := ih hpswell hps hpsbounds
    refine ⟨p' :: ps', ?_, List.forall_mem_cons.mpr ⟨⟨?_, ?_⟩, hgood⟩, ?_⟩
    · rw [List.mapM_cons, hp', hps']
      rfl
    · rw [TypeParameter.isWellFormed, hname, hsameBounds]
      exact hpwell
    · rw [hsameBounds]
      exact hp.bounded
    · rw [List.cons.injEq, List.forall_mem_cons, hsame, hsames]

/-! ### Declarations -/

theorem superclass_of_canonical (hobject : s.lookup? "java.lang.Object" = some .object)
    (sur : Surroundings) {c : ClassTree} {isInterface : Bool} {sc : Option Shape}
    (hc : (TypeTree.classType c).IsWritable) (hroot : isInterface → c = rootTree)
    (h : (Script.superclassOf sur isInterface c).Ends (known s sur.enclosing) (some sc)) :
    (sc.map (Shape.classSignature s)).getD (.ok (rawTree s .object)) = .ok c ∧
      (sc.map Shape.isGeneric).getD false = c.isGeneric := by
  cases isInterface with
  | true =>
    obtain rfl := Option.some.inj h
    obtain rfl := hroot rfl
    exact ⟨congrArg Except.ok (rawTree_object hobject), rfl⟩
  | false =>
    obtain ⟨u, hu, h⟩ := Script.ends_bind_some.mp h
    obtain rfl := Option.some.inj h
    exact ⟨classSignature_of_canonical hobject sur hc hu,
      Script.isGeneric_of_classShape hu⟩

theorem isGeneric_of_header {A : Answers} {c : ClassDecl} {sig : ClassSignature}
    {vs : List TypeVarDecl} {is : List Shape} (hvars : c.typeVariables = vs)
    (hinterfaces : c.interfaces = is)
    (hvs : List.Forall₂ (fun p v => (Script.typeVariable sur p).Ends A (some v)) sig.typeParameters
      vs)
    (hsuper : (c.superclass.map Shape.isGeneric).getD false = sig.superclass.isGeneric)
    (his : List.Forall₂ (fun t u => (Script.classShape sur t).Ends A (some u)) sig.interfaces is)
    (h : sig.typeParameters ≠ [] ∨ ∃ t ∈ sig.superclass :: sig.interfaces, t.isGeneric) :
    c.isGeneric := by
  rw [ClassDecl.isGeneric, hvars, hsuper, hinterfaces]
  simp only [Bool.or_eq_true, Bool.not_eq_true', List.any_eq_true]
  rcases h with hps | ⟨t, ht, hgeneric⟩
  · refine Or.inl (Or.inl (List.isEmpty_eq_false_iff.mpr fun hnil => ?_))
    rw [hnil] at hvs
    exact hps (List.forall₂_nil_right_iff.mp hvs)
  · rcases List.mem_cons.mp ht with rfl | ht
    · exact Or.inl (Or.inr hgeneric)
    · obtain ⟨u, hu, hend⟩ := exists_of_mem_right his.flip ht
      exact Or.inr ⟨u, hu, (Script.isGeneric_of_classShape hend).trans hgeneric⟩

theorem signature_of_canonical (hobject : s.lookup? "java.lang.Object" = some .object)
    {c : ClassDecl} {isInterface : Bool} {sig : ClassSignature} {hd : Header}
    (hsig : sig.IsCanonical s isInterface)
    (h : (Script.headerOf sur isInterface sig).Ends (known s sur.enclosing) (some hd))
    (hvars : c.typeVariables = hd.typeVariables) (hsuper : c.superclass = hd.superclass)
    (hinterfaces : c.interfaces = hd.interfaces) :
    c.isGeneric ∧ ∃ sig', c.signature s = .ok sig' ∧ sig'.isWellFormed ∧
      Bounded sig'.typeParameters ∧
      (sig' = sig ↔ ∀ v ∈ c.typeVariables, ¬ v.extendsInterfaceVariable s) := by
  simp only [Script.headerOf, Script.ends_bind_some, Script.ends_mapM_some, Script.ends_pure,
    Option.some.injEq] at h
  obtain ⟨es, hes, vs, hvs, sc, hsc, is, his, rfl⟩ := h
  have hwell := hsig.wellFormed
  simp only [ClassSignature.isWellFormed, Bool.and_eq_true, List.all_eq_true] at hwell
  obtain ⟨⟨hps, hclass⟩, hclasses⟩ := hwell
  obtain ⟨ps', hps', hgood, hsame⟩ :=
    parameters_of_canonical hobject { sur with classVariables := es } hps hsig.parameters
      (fun p hp t ht => hsig.isWritable t
        (List.mem_append_left _ (List.mem_flatMap.mpr ⟨p, hp, ht⟩))) hvs
  have hclassType : ∀ c ∈ sig.superclass :: sig.interfaces, (TypeTree.classType c).IsWritable :=
    fun c hc => hsig.isWritable _ (List.mem_append_right _ (List.mem_map_of_mem hc))
  obtain ⟨hsc', hscGeneric⟩ := superclass_of_canonical hobject { sur with classVariables := es }
    (hclassType _ (List.mem_cons_self ..)) hsig.root hsc
  have his' : is.mapM (Shape.classSignature s) = .ok sig.interfaces :=
    mapM_eq_of_forall₂ his fun c hc u _ hend =>
      classSignature_of_canonical hobject { sur with classVariables := es }
        (hclassType c (List.mem_cons_of_mem _ hc)) hend
  refine ⟨?_, ⟨ps', sig.superclass, sig.interfaces⟩, ?_, ?_, ?_, ?_⟩
  · exact isGeneric_of_header hvars hinterfaces hvs (by rw [hsuper, hscGeneric]) his hsig.generic
  · rw [ClassDecl.signature, hvars, hsuper, hinterfaces, hps', hsc', his']
    rfl
  · rw [ClassSignature.isWellFormed, List.all_eq_true.mpr fun p hp => (hgood p hp).1, hclass,
      List.all_eq_true.mpr hclasses]
    rfl
  · exact fun p hp => (hgood p (List.mem_of_mem_dropLast hp)).2
  · rw [hvars, ← hsame]
    exact ⟨fun h => congrArg ClassSignature.typeParameters h, fun h => by rw [h]⟩

/-- The writer gives back a canonical signature of a class exactly if no class bound of a type
parameter is a variable that erases to an interface. -/
theorem classText_of_canonical (hobject : s.lookup? "java.lang.Object" = some .object)
    (sur : Surroundings) {c : ClassDecl} {isInterface : Bool} {sig : ClassSignature} {hd : Header}
    (hsig : sig.IsCanonical s isInterface)
    (h : (Script.headerOf sur isInterface sig).Ends (known s sur.enclosing) (some hd))
    (hvars : c.typeVariables = hd.typeVariables) (hsuper : c.superclass = hd.superclass)
    (hinterfaces : c.interfaces = hd.interfaces) :
    c.signatureText? s = some sig.text ↔ ∀ v ∈ c.typeVariables, ¬ v.extendsInterfaceVariable s := by
  obtain ⟨hgeneric, sig', hwrite, hwell, hbounded, hsame⟩ :=
    signature_of_canonical hobject hsig h hvars hsuper hinterfaces
  have htext : c.signatureText? s = some sig'.text := by
    rw [ClassDecl.signatureText?, if_pos hgeneric, hwrite]
    rfl
  rw [htext, Option.some.injEq, ← hsame]
  refine ⟨fun heq => ?_, fun heq => by rw [heq]⟩
  have hparse := ClassSignature.parse_text hwell hbounded
  rw [heq, ClassSignature.parse_text hsig.wellFormed hsig.bounded] at hparse
  exact (Except.ok.inj hparse).symm

theorem return_of_canonical (hobject : s.lookup? "java.lang.Object" = some .object)
    (sur : Surroundings) {r : Option TypeTree} {u : Shape} (hr : ∀ t ∈ r, t.IsWritable)
    (h : (Script.returnShape sur r).Ends (known s sur.enclosing) (some u)) :
    (if u = .void then .ok none else (u.signature s).map some) = .ok r ∧
      ∀ t ∈ r, u.isGeneric = t.isGeneric := by
  cases r with
  | none =>
    obtain rfl := Option.some.inj h
    exact ⟨rfl, by simp⟩
  | some t =>
    have hwrite := shape_of_canonical hobject sur (hr t rfl) h
    have hvoid : u ≠ .void := by
      rintro rfl
      rw [Shape.signature, Shape.void, ofShape, ofErased] at hwrite
      cases hwrite
    refine ⟨by rw [if_neg hvoid, hwrite]; rfl, ?_⟩
    intro t' ht'
    obtain rfl := Option.some.inj ht'
    exact Script.isGeneric_of_shape h

theorem throws_of_canonical (hobject : s.lookup? "java.lang.Object" = some .object)
    (sur : Surroundings) {ts : List TypeTree} {us exceptions : List Shape}
    (hts : ∀ t ∈ ts, t.IsWritable)
    (hthrows : ts = [] ∨ ∃ t ∈ ts, t.isGeneric) (h : List.Forall₂ (Converts s sur) ts us)
    (hexceptions : (us = [] ∧ ¬ exceptions.any Shape.isGeneric) ∨ exceptions = us) :
    (if exceptions.any Shape.isGeneric then exceptions.mapM (Shape.signature s) else .ok []) =
      .ok ts ∧ (∀ t ∈ ts, t.isGeneric → exceptions.any Shape.isGeneric) := by
  rcases hthrows with rfl | ⟨t, ht, hgeneric⟩
  · obtain rfl := List.forall₂_nil_left_iff.mp h
    have hnone : ¬ exceptions.any Shape.isGeneric := by
      rcases hexceptions with ⟨_, hnone⟩ | rfl
      · exact hnone
      · simp
    exact ⟨if_neg hnone, by simp⟩
  · obtain ⟨u, hu, hend⟩ := exists_of_mem_right h.flip ht
    have hany : us.any Shape.isGeneric :=
      List.any_eq_true.mpr ⟨u, hu, (Script.isGeneric_of_shape hend).trans hgeneric⟩
    obtain rfl : exceptions = us := by
      rcases hexceptions with ⟨rfl, _⟩ | heq
      · cases hu
      · exact heq
    exact ⟨(if_pos hany).trans (shapes_of_canonical hobject sur hts h),
      fun _ _ _ => hany⟩

theorem isGeneric_of_methodTypes {A : Answers} {m : Method} {sig : MethodSignature}
    (hvs : List.Forall₂ (fun p v => (Script.typeVariable sur p).Ends A (some v)) sig.typeParameters
      m.typeVariables)
    (hts : List.Forall₂ (fun t u => (Script.shape sur t).Ends A (some u)) sig.parameters
      m.parameterTypes)
    (hr : ∀ t ∈ sig.returnType, m.returnType.isGeneric = t.isGeneric)
    (hthrows : ∀ t ∈ sig.throws, t.isGeneric → m.exceptions.any Shape.isGeneric)
    (h : sig.typeParameters ≠ [] ∨
      ∃ t ∈ sig.parameters ++ sig.returnType.toList ++ sig.throws, t.isGeneric) :
    m.isGeneric := by
  simp only [Method.isGeneric, Bool.or_eq_true, Bool.not_eq_true']
  rcases h with hps | ⟨t, ht, hgeneric⟩
  · refine Or.inl (Or.inl (Or.inl (List.isEmpty_eq_false_iff.mpr fun hnil => ?_)))
    rw [hnil] at hvs
    exact hps (List.forall₂_nil_right_iff.mp hvs)
  · rcases List.mem_append.mp ht with ht | ht
    · rcases List.mem_append.mp ht with ht | ht
      · obtain ⟨u, hu, hend⟩ := exists_of_mem_right hts.flip ht
        exact Or.inl (Or.inl (Or.inr (List.any_eq_true.mpr
          ⟨u, hu, (Script.isGeneric_of_shape hend).trans hgeneric⟩)))
      · exact Or.inl (Or.inr ((hr t (Option.mem_toList.mp ht)).trans hgeneric))
    · exact Or.inr (hthrows t ht hgeneric)

theorem methodSignature_of_canonical (hobject : s.lookup? "java.lang.Object" = some .object)
    {m : Method} {sig : MethodSignature} {types : MethodTypes} (hsig : sig.IsCanonical s)
    (h : (Script.methodTypesIn sur sig).Ends (known s sur.enclosing) (some types))
    (hvars : m.typeVariables = types.typeVariables) (hps : m.parameterTypes = types.parameters)
    (hr : m.returnType = types.returnType)
    (hexceptions : (types.exceptions = [] ∧ ¬ m.exceptions.any Shape.isGeneric) ∨
      m.exceptions = types.exceptions) :
    m.isGeneric ∧ ∃ sig', m.signature s = .ok sig' ∧ sig'.isWellFormed ∧
      Bounded sig'.typeParameters ∧
      (sig' = sig ↔ ∀ v ∈ m.typeVariables, ¬ v.extendsInterfaceVariable s) := by
  obtain ⟨hvs, hts, hreturn, hthrown⟩ := Script.ends_methodTypesIn.mp h
  have hwell := hsig.wellFormed
  simp only [MethodSignature.isWellFormed, Bool.and_eq_true, List.all_eq_true] at hwell
  obtain ⟨⟨⟨hpswell, htswell⟩, hrwell⟩, hthrowswell⟩ := hwell
  have htree : ∀ t ∈ sig.parameters ++ sig.returnType.toList ++ sig.throws, t.IsWritable :=
    fun t ht => hsig.isWritable t (List.mem_append_right _ ht)
  obtain ⟨ps', hps', hgood, hsame⟩ :=
    parameters_of_canonical hobject sur hpswell hsig.parameters
      (fun p hp t ht => hsig.isWritable t
        (List.mem_append_left _ (List.mem_flatMap.mpr ⟨p, hp, ht⟩))) hvs
  have hts' := shapes_of_canonical hobject sur (fun t ht => htree t (by simp [ht])) hts
  obtain ⟨hr', hrGeneric⟩ := return_of_canonical hobject sur
    (fun t ht => htree t (by simp [Option.mem_def.mp ht])) hreturn
  obtain ⟨hthrows', hthrowsGeneric⟩ := throws_of_canonical hobject sur
    (fun t ht => htree t (by simp [ht])) hsig.throws hthrown hexceptions
  refine ⟨?_, ⟨ps', sig.parameters, sig.returnType, sig.throws⟩, ?_, ?_, ?_, ?_⟩
  · exact isGeneric_of_methodTypes (hvars ▸ hvs) (hps ▸ hts) (hr ▸ hrGeneric) hthrowsGeneric
      hsig.generic
  · rw [← hvars] at hps'
    rw [← hps] at hts'
    rw [← hr] at hr'
    exact signature_of_parts hps' hts' hr' hthrows'
  · rw [MethodSignature.isWellFormed, List.all_eq_true.mpr fun p hp => (hgood p hp).1,
      List.all_eq_true.mpr htswell, hrwell,
      List.all_eq_true.mpr fun t ht => Bool.and_eq_true_iff.mpr (hthrowswell t ht)]
    rfl
  · exact fun p hp => (hgood p (List.mem_of_mem_dropLast hp)).2
  · rw [hvars, ← hsame]
    exact ⟨fun h => congrArg MethodSignature.typeParameters h, fun h => by rw [h]⟩

/-- The writer gives back a canonical signature of a method exactly if no class bound of a type
parameter is a variable that erases to an interface. -/
theorem methodText_of_canonical (hobject : s.lookup? "java.lang.Object" = some .object)
    (sur : Surroundings) {m : Method} {sig : MethodSignature} {types : MethodTypes}
    (hsig : sig.IsCanonical s)
    (h : (Script.methodTypesIn sur sig).Ends (known s sur.enclosing) (some types))
    (hvars : m.typeVariables = types.typeVariables) (hps : m.parameterTypes = types.parameters)
    (hr : m.returnType = types.returnType)
    (hexceptions : (types.exceptions = [] ∧ ¬ m.exceptions.any Shape.isGeneric) ∨
      m.exceptions = types.exceptions) :
    m.signatureText? s = some sig.text ↔ ∀ v ∈ m.typeVariables, ¬ v.extendsInterfaceVariable s := by
  obtain ⟨hgeneric, sig', hwrite, hwell, hbounded, hsame⟩ :=
    methodSignature_of_canonical hobject hsig h hvars hps hr hexceptions
  have htext : m.signatureText? s = some sig'.text := by
    rw [Method.signatureText?, if_pos hgeneric, hwrite]
    rfl
  rw [htext, Option.some.injEq, ← hsame]
  refine ⟨fun heq => ?_, fun heq => by rw [heq]⟩
  have hparse := MethodSignature.parse_text hwell hbounded
  rw [heq, MethodSignature.parse_text hsig.wellFormed hsig.bounded] at hparse
  exact (Except.ok.inj hparse).symm

end Loader

end JvmTypes
