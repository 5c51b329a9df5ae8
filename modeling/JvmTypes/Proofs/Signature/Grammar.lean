import JvmTypes.Proofs.Name
import JvmTypes.Signature.Reader
import JvmTypes.Signature.Writer
/-!
# The grammar of signatures

Which texts spell a tree. The reader accepts these texts and no others, so the relation stands
between reader and writer: a well-formed tree is spelled by its written text, and every other text
that spells a tree has a slash more than it needs, in front of the name of a class of the default
package.
-/
namespace JvmTypes.Signature

def Clear (ends name : List Char) : Prop := ∀ c ∈ name, c ∉ ends

/-- The characters of the name are tried. Left to inference, all characters there are may be. -/
instance (ends name : List Char) : Decidable (Clear ends name) := List.decidableBAll _ name

def Fits (ends name : List Char) : Prop := name ≠ [] ∧ Clear ends name

instance (ends name : List Char) : Decidable (Fits ends name) :=
  inferInstanceAs (Decidable (_ ∧ _))

abbrev variableEnds : List Char := [';', '<', '>', ':', '.', '/']
abbrev classEnds : List Char := ['<', ';', '.']
abbrev parameterEnds : List Char := [':', '>', ';', '<']

def TypeTree.isReference : TypeTree → Bool
  | .base _ => false
  | _ => true

mutual

inductive TypeTree.Spells : TypeTree → List Char → Prop where
  | base (b : BaseType) : TypeTree.Spells (.base b) [b.letter]
  | ofClass {c : ClassTree} {w : List Char} :
      c.Body w → TypeTree.Spells (.classType c) ('L' :: (w ++ [';']))
  | ofVariable (name : String) :
      Fits variableEnds name.toList →
        TypeTree.Spells (.variable name) ('T' :: (name.toList ++ [';']))
  | array {t : TypeTree} {w : List Char} : t.Spells w → TypeTree.Spells (.array t) ('[' :: w)

/-- A class type between its leading `L` and the closing semicolon. -/
inductive ClassTree.Body : ClassTree → List Char → Prop where
  | top {package name : String} {as : List Argument} {w : List Char} (qualified : List Char) :
      Fits classEnds qualified →
      Name.splitLast '/' qualified = (package.toList, name.toList) → name.toList ≠ [] →
      ArgumentsSpell as w → ClassTree.Body (.top package name as) (qualified ++ w)
  | member {outer : ClassTree} {as : List Argument} {v w : List Char} (name : String) :
      outer.Body v → Fits classEnds name.toList → ArgumentsSpell as w →
      ClassTree.Body (.member outer name as) (v ++ '.' :: (name.toList ++ w))

inductive ArgumentsSpell : List Argument → List Char → Prop where
  | none : ArgumentsSpell [] []
  | some {a : Argument} {as : List Argument} {w : List Char} :
      ArgumentListSpells (a :: as) w → ArgumentsSpell (a :: as) ('<' :: (w ++ ['>']))

inductive ArgumentListSpells : List Argument → List Char → Prop where
  | nil : ArgumentListSpells [] []
  | cons {a : Argument} {as : List Argument} {v w : List Char} :
      a.Spells v → ArgumentListSpells as w → ArgumentListSpells (a :: as) (v ++ w)

inductive Argument.Spells : Argument → List Char → Prop where
  | any : Argument.Spells .any ['*']
  | exact {t : TypeTree} {w : List Char} : t.isReference → t.Spells w → Argument.Spells (.exact t) w
  | upper {t : TypeTree} {w : List Char} :
      t.isReference → t.Spells w → Argument.Spells (.extends t) ('+' :: w)
  | lower {t : TypeTree} {w : List Char} :
      t.isReference → t.Spells w → Argument.Spells (.super t) ('-' :: w)

end

def ClassTree.Spells (c : ClassTree) (w : List Char) : Prop :=
  ∃ v, c.Body v ∧ w = 'L' :: (v ++ [';'])

inductive SpellsEach (P : α → List Char → Prop) : List α → List Char → Prop where
  | nil : SpellsEach P [] []
  | cons {a : α} {as : List α} {v w : List Char} :
      P a v → SpellsEach P as w → SpellsEach P (a :: as) (v ++ w)

def TypeTree.SpellsReference (t : TypeTree) (w : List Char) : Prop := t.isReference ∧ t.Spells w

def Marked (mark : Char) (P : α → List Char → Prop) (a : α) (w : List Char) : Prop :=
  ∃ v, P a v ∧ w = mark :: v

inductive SpellsMaybe (P : α → List Char → Prop) : Option α → List Char → Prop where
  | none : SpellsMaybe P none []
  | some {a : α} {w : List Char} : P a w → SpellsMaybe P (some a) w

def TypeParameter.Spells (p : TypeParameter) (w : List Char) : Prop :=
  ∃ v x, Fits parameterEnds p.name.toList ∧ SpellsMaybe TypeTree.SpellsReference p.classBound v ∧
    SpellsEach (Marked ':' TypeTree.SpellsReference) p.interfaceBounds x ∧
    w = p.name.toList ++ ':' :: (v ++ x)

/-- Only the last type parameter of a list may stand without bounds: behind the colon of any other
one, the name of the next would be read as its bound. -/
def Bounded (ps : List TypeParameter) : Prop := ∀ p ∈ ps.dropLast, p.bounds ≠ []

inductive TypeParametersSpell : List TypeParameter → List Char → Prop where
  | none : TypeParametersSpell [] []
  | some {p : TypeParameter} {ps : List TypeParameter} {w : List Char} :
      Bounded (p :: ps) → SpellsEach TypeParameter.Spells (p :: ps) w →
      TypeParametersSpell (p :: ps) ('<' :: (w ++ ['>']))

def ClassSignature.Spells (s : ClassSignature) (w : List Char) : Prop :=
  ∃ u v x, TypeParametersSpell s.typeParameters u ∧ s.superclass.Spells v ∧
    SpellsEach ClassTree.Spells s.interfaces x ∧ w = u ++ (v ++ x)

inductive ReturnSpells : Option TypeTree → List Char → Prop where
  | void : ReturnSpells none ['V']
  | type {t : TypeTree} {w : List Char} : t.Spells w → ReturnSpells (some t) w

def TypeTree.isThrowable : TypeTree → Bool
  | .classType _ | .variable _ => true
  | _ => false

def TypeTree.SpellsThrown (t : TypeTree) (w : List Char) : Prop := t.isThrowable ∧ t.Spells w

def MethodSignature.Spells (s : MethodSignature) (w : List Char) : Prop :=
  ∃ u v r x, TypeParametersSpell s.typeParameters u ∧ SpellsEach TypeTree.Spells s.parameters v ∧
    ReturnSpells s.returnType r ∧ SpellsEach (Marked '^' TypeTree.SpellsThrown) s.throws x ∧
    w = u ++ '(' :: (v ++ ')' :: (r ++ x))

/-! ### Well-formed trees -/

mutual

def TypeTree.isWellFormed : TypeTree → Bool
  | .base _ => true
  | .classType c => c.isWellFormed
  | .variable name => decide (Fits variableEnds name.toList)
  | .array t => t.isWellFormed

/-- The names of the segments cannot be mistaken for more or less than one segment; the package is
free of what ends a qualified name. -/
def ClassTree.isWellFormed : ClassTree → Bool
  | .top package name as =>
    decide (Clear classEnds package.toList) && decide (Fits ('/' :: classEnds) name.toList) &&
      areWellFormed as
  | .member outer name as =>
    outer.isWellFormed && decide (Fits classEnds name.toList) && areWellFormed as

def areWellFormed : List Argument → Bool
  | [] => true
  | a :: as => a.isWellFormed && areWellFormed as

def Argument.isWellFormed : Argument → Bool
  | .any => true
  | .exact t | .extends t | .super t => t.isReference && t.isWellFormed

end

def TypeParameter.isWellFormed (p : TypeParameter) : Bool :=
  decide (Fits parameterEnds p.name.toList) && p.bounds.all fun b => b.isReference && b.isWellFormed

def ClassSignature.isWellFormed (s : ClassSignature) : Bool :=
  s.typeParameters.all TypeParameter.isWellFormed && s.superclass.isWellFormed &&
    s.interfaces.all ClassTree.isWellFormed

def MethodSignature.isWellFormed (s : MethodSignature) : Bool :=
  s.typeParameters.all TypeParameter.isWellFormed && s.parameters.all TypeTree.isWellFormed &&
    s.returnType.all TypeTree.isWellFormed &&
    s.throws.all fun t => t.isThrowable && t.isWellFormed

mutual

theorem TypeTree.Spells.isWellFormed :
    ∀ {t : TypeTree} {w : List Char}, t.Spells w → t.isWellFormed
  | .base _, _, _ => rfl
  | .classType c, _, h => by
    cases h with
    | ofClass hc => exact hc.isWellFormed
  | .variable name, _, h => by
    cases h with
    | ofVariable _ hname => exact decide_eq_true hname
  | .array t, _, h => by
    cases h with
    | array ht => exact ht.isWellFormed

theorem ClassTree.Body.isWellFormed :
    ∀ {c : ClassTree} {w : List Char}, c.Body w → c.isWellFormed
  | .top package name as, _, h => by
    cases h with
    | top qualified hfits hsplit hname has =>
      obtain ⟨hslash, hparts⟩ := Name.splitLast_cases hsplit
      have hpackage : Clear classEnds package.toList := by
        rcases hparts with ⟨hnil, _⟩ | rfl
        · rw [hnil]
          rintro c ⟨⟩
        · exact fun c hc => hfits.2 c (List.mem_append_left _ hc)
      have hfits' : Clear classEnds name.toList := by
        rcases hparts with ⟨_, rfl⟩ | rfl
        · exact hfits.2
        · exact fun c hc => hfits.2 c (by simp [hc])
      have hfull : Clear ('/' :: classEnds) name.toList := fun c hc hmem => by
        rcases List.mem_cons.mp hmem with rfl | hmem
        · exact hslash hc
        · exact hfits' c hc hmem
      rw [ClassTree.isWellFormed, decide_eq_true hpackage, decide_eq_true ⟨hname, hfull⟩,
        has.areWellFormed]
      rfl
  | .member outer name as, _, h => by
    cases h with
    | member name houter hname has =>
      rw [ClassTree.isWellFormed, houter.isWellFormed, decide_eq_true hname, has.areWellFormed]
      rfl

theorem ArgumentsSpell.areWellFormed :
    ∀ {as : List Argument} {w : List Char}, ArgumentsSpell as w → areWellFormed as
  | [], _, _ => rfl
  | a :: as, _, h => by
    cases h with
    | some h =>
      cases h with
      | cons ha has =>
        rw [Signature.areWellFormed, ha.isWellFormed, has.areWellFormed]
        rfl

theorem ArgumentListSpells.areWellFormed :
    ∀ {as : List Argument} {w : List Char}, ArgumentListSpells as w → areWellFormed as
  | [], _, _ => rfl
  | a :: as, _, h => by
    cases h with
    | cons ha has =>
      rw [Signature.areWellFormed, ha.isWellFormed, has.areWellFormed]
      rfl

theorem Argument.Spells.isWellFormed :
    ∀ {a : Argument} {w : List Char}, a.Spells w → a.isWellFormed
  | .any, _, _ => rfl
  | .exact t, _, h => by
    cases h with
    | exact href ht =>
      rw [Argument.isWellFormed, href, ht.isWellFormed]
      rfl
  | .extends t, _, h => by
    cases h with
    | upper href ht =>
      rw [Argument.isWellFormed, href, ht.isWellFormed]
      rfl
  | .super t, _, h => by
    cases h with
    | lower href ht =>
      rw [Argument.isWellFormed, href, ht.isWellFormed]
      rfl

end

theorem SpellsEach.all {P : α → List Char → Prop} {good : α → Bool}
    (hgood : ∀ a w, P a w → good a) {as : List α} {w : List Char} (h : SpellsEach P as w) :
    as.all good := by
  induction h with
  | nil => rfl
  | cons ha _ ih => rw [List.all_cons, hgood _ _ ha, ih]; rfl

theorem TypeTree.SpellsReference.isWellFormed {t : TypeTree} {w : List Char}
    (h : t.SpellsReference w) : (t.isReference && t.isWellFormed) = true := by
  rw [h.1, h.2.isWellFormed]
  rfl

theorem TypeParameter.Spells.isWellFormed {p : TypeParameter} {w : List Char} (h : p.Spells w) :
    p.isWellFormed := by
  obtain ⟨v, x, hname, hclass, hinterfaces, _⟩ := h
  have hfirst : p.classBound.toList.all fun b => b.isReference && b.isWellFormed := by
    cases hp : p.classBound with
    | none => rfl
    | some b =>
      rw [hp] at hclass
      cases hclass with
      | some hb => rw [Option.toList_some, List.all_cons, hb.isWellFormed]; rfl
  have hrest : p.interfaceBounds.all fun b => b.isReference && b.isWellFormed :=
    hinterfaces.all fun b w ⟨_, hb, _⟩ => hb.isWellFormed
  rw [TypeParameter.isWellFormed, bounds, List.all_append, hfirst, hrest, decide_eq_true hname]
  rfl

theorem TypeParametersSpell.isWellFormed {ps : List TypeParameter} {w : List Char}
    (h : TypeParametersSpell ps w) : ps.all TypeParameter.isWellFormed := by
  cases h with
  | none => rfl
  | some _ hps => exact hps.all fun _ _ hp => hp.isWellFormed

theorem ClassTree.Spells.isWellFormed {c : ClassTree} {w : List Char} (h : c.Spells w) :
    c.isWellFormed := by
  obtain ⟨_, hc, _⟩ := h
  exact hc.isWellFormed

theorem ClassSignature.Spells.isWellFormed {s : ClassSignature} {w : List Char} (h : s.Spells w) :
    s.isWellFormed := by
  obtain ⟨_, _, _, hps, hsuper, hinterfaces, _⟩ := h
  have hall : s.interfaces.all ClassTree.isWellFormed :=
    hinterfaces.all fun _ _ hc => hc.isWellFormed
  rw [ClassSignature.isWellFormed, hps.isWellFormed, hsuper.isWellFormed, hall]
  rfl

theorem MethodSignature.Spells.isWellFormed {s : MethodSignature} {w : List Char}
    (h : s.Spells w) : s.isWellFormed := by
  obtain ⟨_, _, _, _, hps, hparameters, hreturn, hthrows, _⟩ := h
  have hresult : s.returnType.all TypeTree.isWellFormed := by
    cases hr : s.returnType with
    | none => rfl
    | some t =>
      rw [hr] at hreturn
      cases hreturn with
      | type ht => exact ht.isWellFormed
  have hthrown : s.throws.all fun t => t.isThrowable && t.isWellFormed :=
    hthrows.all fun t w ⟨_, ht, _⟩ => by rw [ht.1, ht.2.isWellFormed]; rfl
  have hall : s.parameters.all TypeTree.isWellFormed :=
    hparameters.all fun _ _ ht => ht.isWellFormed
  rw [MethodSignature.isWellFormed, hps.isWellFormed, hall, hresult, hthrown]
  rfl

theorem ClassTree.dot_not_mem :
    ∀ {c : ClassTree}, c.isWellFormed → '.' ∉ c.internalName.toList
  | .top package name as, h => by
    simp only [ClassTree.isWellFormed, Bool.and_eq_true, decide_eq_true_eq] at h
    obtain ⟨⟨hpackage, hname⟩, _⟩ := h
    have hfront : '.' ∉ package.toList := fun hmem => hpackage _ hmem (by decide)
    have hlast : '.' ∉ name.toList := fun hmem => hname.2 _ hmem (by decide)
    rw [ClassTree.internalName]
    split <;> simp [hfront, hlast]
  | .member outer name as, h => by
    simp only [ClassTree.isWellFormed, Bool.and_eq_true, decide_eq_true_eq] at h
    obtain ⟨⟨houter, hname⟩, _⟩ := h
    have hlast : '.' ∉ name.toList := fun hmem => hname.2 _ hmem (by decide)
    simp [ClassTree.internalName, ClassTree.dot_not_mem houter, hlast]

theorem Fits.mono {ends ends' name : List Char} (h : Fits ends name) (hsub : ends' ⊆ ends) :
    Fits ends' name :=
  ⟨h.1, fun c hc hmem => h.2 c hc (hsub hmem)⟩

theorem splitLast_written {package name : List Char} (hname : '/' ∉ name) :
    Name.splitLast '/' ((if package = [] then [] else package ++ ['/']) ++ name) =
      (package, name) := by
  split
  case isTrue h => rw [h, List.nil_append, Name.splitLast_of_not_mem hname]
  case isFalse => rw [List.append_assoc]; exact Name.splitLast_append hname

theorem fits_written {package name : List Char} (hpackage : Clear classEnds package)
    (hname : Fits ('/' :: classEnds) name) :
    Fits classEnds ((if package = [] then [] else package ++ ['/']) ++ name) := by
  have hfits : Fits classEnds name := hname.mono (List.subset_cons_self ..)
  refine ⟨List.append_ne_nil_of_right_ne_nil _ hfits.1, fun c hc => ?_⟩
  rcases List.mem_append.mp hc with hc | hc
  · split at hc
    case isTrue => cases hc
    case isFalse =>
      rcases List.mem_append.mp hc with hc | hc
      · exact hpackage c hc
      · rw [List.mem_singleton.mp hc]; decide
  · exact hfits.2 c hc

theorem ClassTree.writeOpen_top (package name : String) (as : List Argument) :
    (ClassTree.top package name as).writeOpen = 'L' ::
      (((if package.toList = [] then [] else package.toList ++ ['/']) ++ name.toList) ++
        writeArguments as) := by
  rw [ClassTree.writeOpen]
  simp only [String.toList_eq_nil_iff]

mutual

theorem TypeTree.spells_write : ∀ {t : TypeTree}, t.isWellFormed → t.Spells t.write
  | .base b, _ => .base b
  | .classType c, h => by
    obtain ⟨w, hw, hc⟩ := @ClassTree.exists_body c h
    rw [TypeTree.write, hw]
    exact .ofClass hc
  | .variable name, h => .ofVariable name (of_decide_eq_true h)
  | .array t, h => .array (@TypeTree.spells_write t h)

theorem ClassTree.exists_body :
    ∀ {c : ClassTree}, c.isWellFormed → ∃ w, c.writeOpen = 'L' :: w ∧ c.Body w
  | .top package name as, h => by
    simp only [ClassTree.isWellFormed, Bool.and_eq_true, decide_eq_true_eq] at h
    obtain ⟨⟨hpackage, hname⟩, has⟩ := h
    have hslash : '/' ∉ name.toList := fun hmem => hname.2 _ hmem (List.mem_cons_self ..)
    exact ⟨_, ClassTree.writeOpen_top package name as, .top _ (fits_written hpackage hname)
      (splitLast_written hslash) hname.1 (spell_writeArguments has)⟩
  | .member outer name as, h => by
    simp only [ClassTree.isWellFormed, Bool.and_eq_true, decide_eq_true_eq] at h
    obtain ⟨⟨houter, hname⟩, has⟩ := h
    obtain ⟨w, hw, hbody⟩ := ClassTree.exists_body houter
    exact ⟨_, by rw [ClassTree.writeOpen, hw, List.cons_append],
      .member name hbody hname (spell_writeArguments has)⟩

theorem spell_writeArguments :
    ∀ {as : List Argument}, areWellFormed as → ArgumentsSpell as (writeArguments as)
  | [], _ => .none
  | a :: as, h => by
    rw [writeArguments]
    exact .some (spells_writeRest h)

theorem spells_writeRest :
    ∀ {as : List Argument}, areWellFormed as → ArgumentListSpells as (writeRest as)
  | [], _ => .nil
  | a :: as, h => by
    rw [areWellFormed, Bool.and_eq_true] at h
    exact .cons (Argument.spells_write h.1) (spells_writeRest h.2)

theorem Argument.spells_write : ∀ {a : Argument}, a.isWellFormed → a.Spells a.write
  | .any, _ => .any
  | .exact t, h => by
    rw [Argument.isWellFormed, Bool.and_eq_true] at h
    exact .exact h.1 (TypeTree.spells_write h.2)
  | .extends t, h => by
    rw [Argument.isWellFormed, Bool.and_eq_true] at h
    exact .upper h.1 (TypeTree.spells_write h.2)
  | .super t, h => by
    rw [Argument.isWellFormed, Bool.and_eq_true] at h
    exact .lower h.1 (TypeTree.spells_write h.2)

end

theorem ClassTree.spells_write {c : ClassTree} (h : c.isWellFormed) : c.Spells c.write := by
  obtain ⟨w, hw, hbody⟩ := exists_body h
  exact ⟨w, hbody, by rw [ClassTree.write, hw, List.cons_append]⟩

theorem spellsEach_flatMap {P : α → List Char → Prop} {write : α → List Char} :
    ∀ {as : List α}, (∀ a ∈ as, P a (write a)) → SpellsEach P as (as.flatMap write)
  | [], _ => .nil
  | a :: as, h => by
    rw [List.flatMap_cons]
    exact .cons (h a (List.mem_cons_self ..))
      (spellsEach_flatMap fun b hb => h b (List.mem_cons_of_mem _ hb))

theorem TypeParameter.spells_write {p : TypeParameter} (h : p.isWellFormed) : p.Spells p.write := by
  simp only [isWellFormed, Bool.and_eq_true, decide_eq_true_eq, List.all_eq_true] at h
  obtain ⟨hname, hbounds⟩ := h
  have hbound : ∀ b ∈ p.bounds, b.SpellsReference b.write :=
    fun b hb => ⟨(hbounds b hb).1, TypeTree.spells_write (hbounds b hb).2⟩
  have hclass : SpellsMaybe TypeTree.SpellsReference p.classBound
      ((p.classBound.map TypeTree.write).getD []) := by
    cases hp : p.classBound with
    | none => exact .none
    | some b => exact .some (hbound b (by simp [bounds, hp]))
  exact ⟨_, _, hname, hclass, spellsEach_flatMap fun b hb =>
    ⟨_, hbound b (List.mem_append_right _ hb), rfl⟩, rfl⟩

theorem spell_writeTypeParameters {ps : List TypeParameter}
    (h : ps.all TypeParameter.isWellFormed) (hbounded : Bounded ps) :
    TypeParametersSpell ps (writeTypeParameters ps) := by
  cases ps with
  | nil => exact .none
  | cons p ps =>
    exact .some hbounded (spellsEach_flatMap fun q hq =>
      TypeParameter.spells_write (List.all_eq_true.mp h q hq))

theorem ClassSignature.spells_write {s : ClassSignature} (h : s.isWellFormed)
    (hbounded : Bounded s.typeParameters) : s.Spells s.write := by
  simp only [isWellFormed, Bool.and_eq_true] at h
  obtain ⟨⟨hparameters, hsuper⟩, hinterfaces⟩ := h
  exact ⟨_, _, _, spell_writeTypeParameters hparameters hbounded, ClassTree.spells_write hsuper,
    spellsEach_flatMap fun c hc => ClassTree.spells_write (List.all_eq_true.mp hinterfaces c hc),
    by rw [write, List.append_assoc]⟩

theorem MethodSignature.spells_write {s : MethodSignature} (h : s.isWellFormed)
    (hbounded : Bounded s.typeParameters) : s.Spells s.write := by
  simp only [isWellFormed, Bool.and_eq_true] at h
  obtain ⟨⟨⟨htypes, hparameters⟩, hreturn⟩, hthrows⟩ := h
  have hresult : ReturnSpells s.returnType (s.returnType.elim ['V'] TypeTree.write) := by
    cases ht : s.returnType with
    | none => exact .void
    | some t => exact .type (TypeTree.spells_write (by simpa [ht] using hreturn))
  have hthrown : ∀ t ∈ s.throws, t.SpellsThrown t.write := by
    intro t ht
    have := List.all_eq_true.mp hthrows t ht
    rw [Bool.and_eq_true] at this
    exact ⟨this.1, TypeTree.spells_write this.2⟩
  exact ⟨_, _, _, _, spell_writeTypeParameters htypes hbounded,
    spellsEach_flatMap fun t ht => TypeTree.spells_write (List.all_eq_true.mp hparameters t ht),
    hresult, spellsEach_flatMap fun t ht => ⟨_, hthrown t ht, rfl⟩, by
      rw [write]; cases s.returnType <;> rfl⟩

end JvmTypes.Signature
