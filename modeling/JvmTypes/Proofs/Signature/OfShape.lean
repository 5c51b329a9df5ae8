import JvmTypes.Proofs.Signature.Grammar
import JvmTypes.Proofs.Store.Growth
import JvmTypes.Signature.OfShape
/-!
# Trees that are written for shapes

A shape keeps the place of a class and forgets into which segments its name was cut. The writer cuts
it again: at the last slash, and behind the name of an applied owner.
-/
namespace JvmTypes

namespace Name

theorem splitLast_append_right {sep : Char} {text tail front name : List Char}
    (h : splitLast sep text = (front, name)) (htail : sep ∉ tail) :
    splitLast sep (text ++ tail) = (front, name ++ tail) := by
  obtain ⟨hname, hparts⟩ := splitLast_cases h
  have hnot : sep ∉ name ++ tail := by
    rw [List.mem_append]
    exact not_or.mpr ⟨hname, htail⟩
  rcases hparts with ⟨rfl, rfl⟩ | rfl
  · exact splitLast_of_not_mem hnot
  · rw [List.append_assoc, List.cons_append]
    exact splitLast_append hnot

theorem after?_append (front name : String) : after? front (front ++ name) = some name := by
  have hprefix : front.toList.isPrefixOf (front ++ name).toList = true := by simp
  rw [after?, if_pos hprefix, String.toList_append, ← String.length_toList, List.drop_left,
    String.ofList_toList]

theorem member?_append (outer name : String) :
    member? outer (outer ++ "$" ++ name) = some name := by
  rw [member?, String.append_assoc, after?_append, Option.bind_some, after?_append]

end Name

namespace Shape

mutual

/-- How deep applied classes and generic arrays stand inside each other. -/
def nesting : Shape → Nat
  | .plain _ | .variable _ => 0
  | .array c => c.nesting + 1
  | .applied _ as owner => max (nestingOfArguments as) (nestingOfOwner owner) + 1
  | .upper b | .lower b => b.nesting

def nestingOfArguments : List Shape → Nat
  | [] => 0
  | a :: as => max a.nesting (nestingOfArguments as)

def nestingOfOwner : Option Shape → Nat
  | none => 0
  | some owner => owner.nesting

end

end Shape

namespace Signature

abbrev identifierEnds : List Char := ['.', ';', '[', '/', '<', '>', ':']

abbrev IsIdentifier (name : List Char) : Prop := Fits identifierEnds name

mutual

def TypeTree.identifiers : TypeTree → List (List Char)
  | .base _ => []
  | .classType c => c.identifiers
  | .variable name => [name.toList]
  | .array t => t.identifiers

def ClassTree.identifiers : ClassTree → List (List Char)
  | .top package name as =>
    (if package = "" then [] else package.toList.splitOn '/') ++
      name.toList :: argumentIdentifiers as
  | .member outer name as => outer.identifiers ++ name.toList :: argumentIdentifiers as

def argumentIdentifiers : List Argument → List (List Char)
  | [] => []
  | a :: as => a.identifiers ++ argumentIdentifiers as

def Argument.identifiers : Argument → List (List Char)
  | .any => []
  | .exact t | .extends t | .super t => t.identifiers

end

def TypeParameter.identifiers (p : TypeParameter) : List (List Char) :=
  p.name.toList :: p.bounds.flatMap TypeTree.identifiers

def ClassSignature.identifiers (s : ClassSignature) : List (List Char) :=
  s.typeParameters.flatMap TypeParameter.identifiers ++
    (s.superclass.identifiers ++ s.interfaces.flatMap ClassTree.identifiers)

def MethodSignature.identifiers (s : MethodSignature) : List (List Char) :=
  s.typeParameters.flatMap TypeParameter.identifiers ++
    ((s.parameters ++ s.returnType.toList) ++ s.throws).flatMap TypeTree.identifiers

theorem Fits.append {ends front tail : List Char} (h : Fits ends front) (htail : Clear ends tail) :
    Fits ends (front ++ tail) := by
  refine ⟨List.append_ne_nil_of_left_ne_nil h.1 _, fun c hc => ?_⟩
  rcases List.mem_append.mp hc with hc | hc
  · exact h.2 c hc
  · exact htail c hc

def rootTree : ClassTree := .top "java/lang" "Object" []

theorem ClassTree.raw_of_splitLast {internal package name : String}
    (h : Name.splitLast '/' internal.toList = (package.toList, name.toList)) :
    raw internal = .top package name [] := by
  simp only [raw, h, String.ofList_toList]

theorem ClassTree.exists_raw : ∀ {c : ClassTree}, c.isWellFormed →
    (∀ x ∈ c.identifiers, IsIdentifier x) → ∃ package name : String,
      Name.splitLast '/' c.internalName.toList = (package.toList, name.toList) ∧
        (ClassTree.top package name []).isWellFormed ∧
        (ClassTree.top package name []).internalName = c.internalName
  | .top package name as, h, hnames => by
    have hname : '/' ∉ name.toList := fun hmem =>
      (hnames name.toList (by simp [ClassTree.identifiers])).2 _ hmem (by decide)
    refine ⟨package, name, ?_, ?_, rfl⟩
    · rw [← splitLast_written hname, ClassTree.internalName]
      by_cases hp : package = ""
      · simp [hp]
      · simp [hp]
    · simp only [ClassTree.isWellFormed, Bool.and_eq_true] at h ⊢
      exact ⟨h.1, rfl⟩
  | .member outer name as, h, hnames => by
    have hclear : Clear ('/' :: classEnds) ("$" ++ name).toList := by
      have hname : Fits ('/' :: classEnds) name.toList :=
        (hnames name.toList (by simp [ClassTree.identifiers])).mono (by decide)
      intro c hc
      rcases List.mem_cons.mp (by simpa using hc) with rfl | hc
      · decide
      · exact hname.2 c hc
    have htail : '/' ∉ ("$" ++ name).toList := fun hmem => hclear _ hmem (List.mem_cons_self ..)
    simp only [ClassTree.isWellFormed, Bool.and_eq_true, decide_eq_true_eq] at h
    obtain ⟨⟨houter, _⟩, _⟩ := h
    obtain ⟨package, last, hsplit, hwell, hinternal⟩ := ClassTree.exists_raw houter
      fun x hx => hnames x (by simp [ClassTree.identifiers, hx])
    have hsplit' := Name.splitLast_append_right hsplit htail
    rw [ClassTree.internalName, String.append_assoc, ← hinternal]
    refine ⟨package, last ++ ("$" ++ name), ?_, ?_, ?_⟩
    · rw [String.toList_append, hinternal, hsplit', String.toList_append (t := "$" ++ name)]
    · simp only [ClassTree.isWellFormed, Bool.and_eq_true, decide_eq_true_eq] at hwell ⊢
      rw [String.toList_append]
      exact ⟨⟨hwell.1.1, hwell.1.2.append hclear⟩, hwell.2⟩
    · simp only [ClassTree.internalName]
      split <;> simp [String.append_assoc]

section Writing

variable {s : Store} {levels : Nat} {raw id : ClassId} {as : List Shape} {owner : Option Shape}

theorem rawTree_eq {internal : String} (hid : s.lookup? (Name.toBinary internal) = some id)
    (hdot : '.' ∉ internal.toList) : rawTree s id = .raw internal := by
  rw [rawTree, Store.name_of_lookup? hid, Name.toInternal_toBinary hdot]

theorem memberTree_eq {outer : ClassTree} {name : String}
    (hid : s.lookup? (Name.toBinary (outer.internalName ++ "$" ++ name)) = some id)
    (hdot : '.' ∉ (outer.internalName ++ "$" ++ name).toList) :
    memberTree s outer id = .ok (.member outer name []) := by
  rw [memberTree, Store.name_of_lookup? hid, Name.toInternal_toBinary hdot, Name.member?_append]

theorem ofShape_arrayOf {c : Shape} (hn : c.arrayOf.nesting ≤ levels) :
    ∃ n, c.nesting ≤ n ∧
      ∀ t, ofShape s n c = .ok t → ofShape s levels c.arrayOf = .ok (.array t) := by
  cases c with
  | plain e =>
    refine ⟨levels, Nat.zero_le _, fun t h => ?_⟩
    rw [ofShape] at h
    rw [Shape.arrayOf, ofShape, ofErased, h]
    rfl
  | array | applied | upper | lower | «variable» =>
    simp only [Shape.arrayOf, Shape.nesting] at hn ⊢
    obtain ⟨n, rfl⟩ : ∃ n, levels = n + 1 := ⟨levels - 1, by omega⟩
    refine ⟨n, by omega, fun t h => ?_⟩
    rw [ofShape, h]
    rfl

theorem nesting_applied (hn : (Shape.applied raw as owner).nesting ≤ levels) :
    ∃ n, levels = n + 1 ∧ Shape.nestingOfArguments as ≤ n ∧ Shape.nestingOfOwner owner ≤ n := by
  rw [Shape.nesting] at hn
  exact ⟨levels - 1, by omega, by omega, by omega⟩

theorem ofShape_applied {c : ClassTree} {arguments : List Argument}
    (hc : ofOwner s levels raw owner = .ok c) (has : ofArguments s levels as = .ok arguments) :
    ofShape s (levels + 1) (.applied raw as owner) =
      .ok (.classType (c.withArguments arguments)) := by
  rw [ofShape, hc, has]
  rfl

theorem ofOwner_applied {c : ClassTree}
    (h : ofShape s levels (.applied raw as owner) = .ok (.classType c)) :
    ofOwner s levels id (some (.applied raw as owner)) = memberTree s c id := by
  cases levels with
  | zero =>
    rw [ofShape] at h
    cases h
  | succ levels =>
    rw [ofShape] at h
    rw [ofOwner]
    rcases hc : ofOwner s levels raw owner with e | c' <;> rw [hc] at h
    · cases h
    · rcases has : ofArguments s levels as with e | arguments <;> rw [has] at h
      · cases h
      · injection h with h
        injection h with h
        rw [← h]
        rfl

theorem ofArgument_exact {u : Shape} {t : TypeTree} (h : ofShape s levels u = .ok t) :
    ofArgument s levels u = .ok (.exact t) := by
  cases u with
  | upper b | lower b =>
    rw [ofShape] at h
    cases h
  | plain | array | applied | «variable» =>
    simp only [ofArgument, h]
    rfl

theorem ofArgument_upper {u : Shape} {t : TypeTree} (h : ofShape s levels u = .ok t) :
    (u = .object ∧ ofArgument s levels (.upper u) = .ok .any) ∨
      ofArgument s levels (.upper u) = .ok (.extends t) := by
  cases u with
  | plain e =>
    by_cases he : e = .object
    · subst he
      exact .inl ⟨rfl, by rw [ofArgument, if_pos rfl]⟩
    · rw [ofShape] at h
      exact .inr (by rw [ofArgument, if_neg he, h]; rfl)
  | array | applied | upper | lower | «variable» =>
    simp only [ofArgument, h]
    exact .inr rfl

theorem ofArgument_lower {u : Shape} {t : TypeTree} (h : ofShape s levels u = .ok t) :
    ofArgument s levels (.lower u) = .ok (.super t) := by
  rw [ofArgument, h]
  rfl

end Writing

end Signature

end JvmTypes
