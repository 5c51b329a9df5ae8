import JvmTypes.Proofs.Loader.Written
/-!
# Writing declarations that were converted

Type parameters, class headers and method types, written as signatures that are converted to them
again. A bound that is missing is written as the root class it stands for.
-/
namespace JvmTypes

namespace Signature

/-- The parameters have one name, and their first bounds name the same class or variable. A bound
that is missing stands for the root class. -/
structure TypeParameter.Alike (p p' : TypeParameter) : Prop where
  name : p'.name = p.name
  bound : ∃ t, p'.bounds.head? = some t ∧ (p.bounds.head?.getD (.classType rootTree)).Alike t

end Signature

namespace Loader

open Signature

variable {s : Store} {sur : Surroundings}

theorem names_of_alike {ps ps' : List TypeParameter}
    (h : List.Forall₂ TypeParameter.Alike ps ps') : ps'.map (·.name) = ps.map (·.name) := by
  induction h with
  | nil => rfl
  | cons hp _ ih => rw [List.map_cons, List.map_cons, hp.name, ih]

theorem parameterErasure_alike {enclosing : Option ClassId} {ps ps' : List TypeParameter}
    (hobject : s.lookup? "java.lang.Object" = some .object)
    (halike : List.Forall₂ TypeParameter.Alike ps ps') {steps place : Nat} {visited : List Nat}
    {e : Erased}
    (h : (Script.parameterErasure sur ps steps visited place).Ends (known s enclosing) (some e)) :
    (Script.parameterErasure sur ps' steps visited place).Ends (known s enclosing) (some e) := by
  obtain ⟨hlen, hget⟩ := List.forall₂_iff_get.mp halike
  have hnames := names_of_alike halike
  induction steps generalizing place visited with
  | zero => exact h
  | succ steps ih =>
    rw [Script.parameterErasure] at h ⊢
    by_cases hplace : place < ps.length
    · have hplace' : place < ps'.length := hlen ▸ hplace
      obtain ⟨hname, t', hbound, hbounds⟩ := hget place hplace hplace'
      rw [List.get_eq_getElem] at hname hbound hbounds
      simp only [List.getElem?_eq_getElem hplace, List.get_eq_getElem] at h hname hbounds
      simp only [List.getElem?_eq_getElem hplace', hbound]
      -- A missing bound and the root class that is written for it both end the chain.
      rcases hb : ps[place].bounds.head? with _ | t <;> rw [hb] at h hbounds
      · cases hbounds with
        | cls hinternal =>
          obtain rfl := Option.some.inj h
          refine Script.ends_bind_some.mpr ⟨.object, ends_classNamed_iff.mpr ?_, rfl⟩
          rw [hinternal]
          exact hobject
      · cases hbounds with
        | base b => simp at h
        | array => simp at h
        | cls hinternal =>
          obtain ⟨id, hid, he⟩ := Script.ends_bind_some.mp h
          refine Script.ends_bind_some.mpr ⟨id, ends_classNamed_iff.mpr ?_, he⟩
          rw [hinternal]
          exact ends_classNamed_iff.mp hid
        | «variable» name =>
          simp only [Script.findIdx?_of_map_eq hnames] at h ⊢
          cases hn : ps.findIdx? (·.name = name) with
          | none =>
            simp only [hn] at h ⊢
            exact h
          | some next =>
            simp only [hn] at h ⊢
            split at h
            case isTrue => simp at h
            case isFalse hfresh =>
              rw [if_neg hfresh]
              exact ih h
    · rw [List.getElem?_eq_none (by omega)] at h ⊢
      exact h

theorem parameterErasures_alike {enclosing : Option ClassId} {ps ps' : List TypeParameter}
    {es : Erasures} (hobject : s.lookup? "java.lang.Object" = some .object)
    (halike : List.Forall₂ TypeParameter.Alike ps ps')
    (h : (Script.parameterErasures sur ps).Ends (known s enclosing) (some es)) :
    (Script.parameterErasures sur ps').Ends (known s enclosing) (some es) := by
  obtain ⟨hlen, hpair⟩ := List.forall₂_iff_get.mp halike
  obtain ⟨hlene, hget⟩ := List.forall₂_iff_get.mp (Script.ends_mapM_some.mp h)
  refine Script.ends_mapM_some.mpr (List.forall₂_iff_get.mpr ⟨by simpa [hlen] using hlene, ?_⟩)
  intro i hi hi'
  have hplace : i < ps.length := by simpa [hlen] using hi
  have hend := hget i (by simpa using hplace) hi'
  have hname := (hpair i hplace (hlen ▸ hplace)).name
  simp only [List.get_eq_getElem, List.getElem_zip, List.getElem_range] at hend hname ⊢
  obtain ⟨e, he, heq⟩ := Script.ends_bind_some.mp hend
  have he' := parameterErasure_alike hobject halike he
  rw [hlen] at he'
  exact Script.ends_bind_some.mpr ⟨e, he', by rw [hname]; exact heq⟩

/-- A list is written element by element, each one as `W` says, with a result that is to the element
it came from as `S` says. -/
theorem mapM_of_forall₂ {f : β → Except ε γ} {R : α → β → Prop} {W : β → γ → Prop}
    {S : α → γ → Prop} {as : List α} {bs : List β} (h : List.Forall₂ R as bs)
    (hf : ∀ a ∈ as, ∀ b ∈ bs, R a b → ∃ c, f b = .ok c ∧ W b c ∧ S a c) :
    ∃ cs, bs.mapM f = .ok cs ∧ List.Forall₂ W bs cs ∧ List.Forall₂ S as cs := by
  induction h with
  | nil => exact ⟨[], rfl, .nil, .nil⟩
  | @cons a b as bs hab _ ih =>
    obtain ⟨c, hc, hw, hs⟩ := hf a (List.mem_cons_self ..) b (List.mem_cons_self ..) hab
    obtain ⟨cs, hcs, hws, hss⟩ := ih fun a ha b hb =>
      hf a (List.mem_cons_of_mem _ ha) b (List.mem_cons_of_mem _ hb)
    refine ⟨c :: cs, ?_, .cons hw hws, .cons hs hss⟩
    rw [List.mapM_cons, hc, hcs]
    rfl

structure WrittenParameter (s : Store) (sur : Surroundings) (v : TypeVarDecl) (p : TypeParameter) :
    Prop where
  write : v.parameter s = .ok p
  wellFormed : p.isWellFormed
  bounded : p.bounds ≠ []
  convert : (Script.typeVariable sur p).Ends (known s sur.enclosing) (some v)

theorem parameter_of_bounds {v : TypeVarDecl} {t : TypeTree} {ts : List TypeTree}
    (h : v.bounds.mapM (Shape.signature s) = .ok (t :: ts)) :
    ∃ p, v.parameter s = .ok p ∧ p.name = v.symbol ∧ p.bounds = t :: ts := by
  rw [TypeVarDecl.parameter, h]
  cases ((v.bounds.head?.bind Shape.erasure?).map (Erased.isInterface s)).getD false with
  | true => exact ⟨⟨v.symbol, none, t :: ts⟩, rfl, rfl, rfl⟩
  | false => exact ⟨⟨v.symbol, some t, ts⟩, rfl, rfl, rfl⟩

theorem written_shapes (sur : Surroundings) {ts : List TypeTree} {us : List Shape}
    (hwell : ∀ t ∈ ts, t.isWellFormed) (hnames : ∀ t ∈ ts, ∀ x ∈ t.identifiers, IsIdentifier x)
    (h : List.Forall₂ (Converts s sur) ts us)
    (hn : ∀ u ∈ us, u.nesting ≤ maxDepth) :
    ∃ ts', us.mapM (Shape.signature s) = .ok ts' ∧ (∀ t ∈ ts', t.isWellFormed) ∧
      List.Forall₂ (Converts s sur) ts' us ∧
      List.Forall₂ TypeTree.Alike ts ts' := by
  obtain ⟨ts', hwrite, hwritten, halike⟩ := mapM_of_forall₂ (W := Written s sur maxDepth) h
    fun t ht u hu hend => by
      obtain ⟨t', hw, halike⟩ := written_shape (hwell t ht) (hnames t ht) hend (hn u hu)
      exact ⟨t', hw.write, hw, halike⟩
  refine ⟨ts', hwrite, fun t ht => ?_, (hwritten.imp fun _ _ hw => hw.convert).flip, halike⟩
  obtain ⟨_, _, hw⟩ := exists_of_mem_right hwritten ht
  exact hw.wellFormed

theorem rawTree_object (hobject : s.lookup? "java.lang.Object" = some .object) :
    rawTree s .object = rootTree := by
  have hraw : ClassTree.raw "java/lang/Object" = rootTree :=
    ClassTree.raw_of_splitLast (by decide)
  rw [@rawTree_eq s .object "java/lang/Object" hobject (by decide), hraw]

theorem written_root (sur : Surroundings)
    (hobject : s.lookup? "java.lang.Object" = some .object) (levels : Nat) :
    Written s sur levels .object (.classType rootTree) := by
  refine ⟨?_, rfl, ?_⟩
  · rw [Shape.object, Shape.ofClass, ofShape, ofErased, rawTree_object hobject]
  · rw [converts_classType, rootTree, Script.classShape]
    refine Script.ends_bind_some.mpr ⟨.object, ends_classNamed_iff.mpr hobject, ?_⟩
    exact Script.ends_bind_some.mpr ⟨[], rfl, rfl⟩

theorem written_bounds {p : TypeParameter} {v : TypeVarDecl} (hwell : p.isWellFormed)
    (hnames : ∀ x ∈ p.identifiers, IsIdentifier x)
    (hobject : s.lookup? "java.lang.Object" = some .object)
    (h : (Script.typeVariable sur p).Ends (known s sur.enclosing) (some v))
    (hn : ∀ u ∈ v.bounds, u.nesting ≤ maxDepth) :
    ∃ t ts, v.bounds.mapM (Shape.signature s) = .ok (t :: ts) ∧
      (∀ b ∈ t :: ts, b.isReference ∧ b.isWellFormed) ∧
      List.Forall₂ (Converts s sur)
        (t :: ts) v.bounds ∧
      (p.bounds.head?.getD (.classType rootTree)).Alike t := by
  have hbound : ∀ b ∈ p.bounds, b.isReference ∧ b.isWellFormed := fun b hb => by
    rw [TypeParameter.isWellFormed, Bool.and_eq_true, List.all_eq_true] at hwell
    simpa only [Bool.and_eq_true] using hwell.2 b hb
  cases hb : p.bounds with
  | nil =>
    simp only [Script.typeVariable, hb] at h
    obtain rfl := Option.some.inj h
    have hroot := written_root sur hobject maxDepth
    refine ⟨.classType rootTree, [], ?_, ?_, .cons hroot.convert .nil, .cls rfl⟩
    · rw [List.mapM_cons, Shape.signature, hroot.write]
      rfl
    · rintro b (_ | ⟨_, ⟨⟩⟩)
      exact ⟨rfl, hroot.wellFormed⟩
  | cons b bs =>
    simp only [Script.typeVariable, hb] at h
    obtain ⟨us, hus, h⟩ := Script.ends_bind_some.mp h
    obtain rfl := Option.some.inj h
    have hall := Script.ends_mapM_some.mp hus
    rw [← hb] at hall
    obtain ⟨ts, hwrite, hwell', hconvert, halike⟩ := written_shapes sur
      (fun b hb => (hbound b hb).2) (fun b hb x hx => hnames x
        (List.mem_cons_of_mem _ (List.mem_flatMap.mpr ⟨b, hb, hx⟩))) hall hn
    have href : ∀ t ∈ ts, t.isReference ∧ t.isWellFormed := fun t ht => by
      obtain ⟨b, hb, hbt⟩ := exists_of_mem_right halike ht
      exact ⟨by rw [hbt.isReference, (hbound b hb).1], hwell' t ht⟩
    rw [hb] at halike
    cases halike with
    | cons hhead _ => exact ⟨_, _, hwrite, href, hconvert, hhead⟩

theorem written_parameter {p : TypeParameter} {v : TypeVarDecl} (hwell : p.isWellFormed)
    (hnames : ∀ x ∈ p.identifiers, IsIdentifier x)
    (hobject : s.lookup? "java.lang.Object" = some .object)
    (h : (Script.typeVariable sur p).Ends (known s sur.enclosing) (some v))
    (hn : ∀ u ∈ v.bounds, u.nesting ≤ maxDepth) :
    ∃ p', WrittenParameter s sur v p' ∧ p.Alike p' := by
  obtain ⟨t, ts, hwrite, hgood, hconvert, hhead⟩ := written_bounds hwell hnames hobject h hn
  obtain ⟨p', hp', hsymbol, hbounds⟩ := parameter_of_bounds hwrite
  have hname : p'.name = p.name := hsymbol.trans (Script.ends_typeVariable h).1
  refine ⟨p', ⟨hp', ?_, by simp [hbounds], ?_⟩, hname, t, by simp [hbounds], hhead⟩
  · rw [TypeParameter.isWellFormed, Bool.and_eq_true] at hwell ⊢
    refine ⟨by rw [hname]; exact hwell.1, ?_⟩
    rw [hbounds, List.all_eq_true]
    intro b hb
    rw [(hgood b hb).1, (hgood b hb).2]
    rfl
  · simp only [Script.typeVariable, hbounds]
    refine Script.ends_bind_some.mpr ⟨v.bounds, ?_, by rw [hsymbol]; rfl⟩
    exact Script.ends_mapM_some.mpr hconvert

theorem written_parameters (sur : Surroundings) {ps : List TypeParameter}
    {vs : List TypeVarDecl} (hwell : ps.all TypeParameter.isWellFormed)
    (hnames : ∀ p ∈ ps, ∀ x ∈ p.identifiers, IsIdentifier x)
    (hobject : s.lookup? "java.lang.Object" = some .object)
    (h : List.Forall₂ (fun p v => (Script.typeVariable sur p).Ends (known s sur.enclosing) (some v))
      ps vs)
    (hn : ∀ u ∈ vs.flatMap (·.bounds), u.nesting ≤ maxDepth) :
    ∃ ps', vs.mapM (TypeVarDecl.parameter s) = .ok ps' ∧ ps'.all TypeParameter.isWellFormed ∧
      Bounded ps' ∧ List.Forall₂ TypeParameter.Alike ps ps' ∧
      List.Forall₂ (fun p v => (Script.typeVariable sur p).Ends (known s sur.enclosing) (some v))
        ps' vs := by
  obtain ⟨ps', hwrite, hwritten, halike⟩ := mapM_of_forall₂ h fun p hp v hv hend => by
    obtain ⟨p', hw, halike⟩ := written_parameter (List.all_eq_true.mp hwell p hp) (hnames p hp)
      hobject hend fun u hu => hn u (List.mem_flatMap.mpr ⟨v, hv, hu⟩)
    exact ⟨p', hw.write, hw, halike⟩
  have hall : ∀ p ∈ ps', ∃ v, WrittenParameter s sur v p := fun p hp => by
    obtain ⟨v, _, hw⟩ := exists_of_mem_right hwritten hp
    exact ⟨v, hw⟩
  refine ⟨ps', hwrite, List.all_eq_true.mpr fun p hp => ?_, fun p hp => ?_, halike,
    (hwritten.imp fun _ _ hw => hw.convert).flip⟩
  · obtain ⟨_, hw⟩ := hall p hp
    exact hw.wellFormed
  · obtain ⟨_, hw⟩ := hall p (List.mem_of_mem_dropLast hp)
    exact hw.bounded

theorem written_supertype (sur : Surroundings) {c : ClassTree} {u : Shape} (hwell : c.isWellFormed)
    (hnames : ∀ x ∈ c.identifiers, IsIdentifier x)
    (h : (Script.classShape sur c).Ends (known s sur.enclosing) (some u))
    (hn : u.nesting ≤ maxDepth) :
    ∃ c', u.classSignature s = .ok c' ∧ c'.isWellFormed ∧
      (Script.classShape sur c').Ends (known s sur.enclosing) (some u) := by
  obtain ⟨c', hw, _⟩ := written_classShape hwell hnames h hn
  refine ⟨c', ?_, hw.wellFormed, converts_classType.mp hw.convert⟩
  rw [Shape.classSignature, Shape.signature, hw.write]
  rfl

theorem written_superclass (sur : Surroundings) {c : ClassTree} {isInterface : Bool}
    {sc : Option Shape}
    (hwell : c.isWellFormed) (hnames : ∀ x ∈ c.identifiers, IsIdentifier x)
    (hobject : s.lookup? "java.lang.Object" = some .object)
    (h : (Script.superclassOf sur isInterface c).Ends (known s sur.enclosing) (some sc))
    (hn : ∀ u ∈ sc, u.nesting ≤ maxDepth) :
    ∃ c', (sc.map (Shape.classSignature s)).getD (.ok (rawTree s .object)) = .ok c' ∧
      c'.isWellFormed ∧
      (Script.superclassOf sur isInterface c').Ends (known s sur.enclosing) (some sc) := by
  cases isInterface with
  | true =>
    obtain rfl := Option.some.inj h
    exact ⟨rootTree, by rw [← rawTree_object hobject]; rfl, rfl, rfl⟩
  | false =>
    obtain ⟨u, hu, h⟩ := Script.ends_bind_some.mp h
    obtain rfl := Option.some.inj h
    obtain ⟨c', hwrite, hwell, hconvert⟩ := written_supertype sur hwell hnames hu (hn u rfl)
    exact ⟨c', hwrite, hwell, Script.ends_bind_some.mpr ⟨u, hconvert, rfl⟩⟩

/-- The signature that is written for a class is converted to the header of the class. -/
theorem written_header (sur : Surroundings) {c : ClassDecl} {isInterface : Bool}
    {sig : ClassSignature} {hd : Header} (hwell : sig.isWellFormed)
    (hnames : ∀ x ∈ sig.identifiers, IsIdentifier x)
    (hobject : s.lookup? "java.lang.Object" = some .object)
    (h : (Script.headerOf sur isInterface sig).Ends (known s sur.enclosing) (some hd))
    (hvars : c.typeVariables = hd.typeVariables) (hsuper : c.superclass = hd.superclass)
    (hinterfaces : c.interfaces = hd.interfaces)
    (hn : ∀ u ∈ c.typeVariables.flatMap (·.bounds) ++ (c.superclass.toList ++ c.interfaces),
      u.nesting ≤ maxDepth) :
    ∃ sig', c.signature s = .ok sig' ∧ sig'.isWellFormed ∧ Bounded sig'.typeParameters ∧
      (Script.headerOf sur isInterface sig').Ends (known s sur.enclosing) (some hd) := by
  simp only [Script.headerOf, Script.ends_bind_some, Script.ends_mapM_some, Script.ends_pure,
    Option.some.injEq] at h
  obtain ⟨es, hes, vs, hvs, sc, hsc, is, his, rfl⟩ := h
  simp only [ClassSignature.isWellFormed, Bool.and_eq_true] at hwell
  obtain ⟨⟨hps, hclass⟩, hclasses⟩ := hwell
  rw [hvars, hsuper, hinterfaces] at hn
  obtain ⟨ps', hps', hpswell, hbounded, halike, hpsconvert⟩ :=
    written_parameters { sur with classVariables := es } hps
      (fun p hp x hx => hnames x (List.mem_append_left _ (List.mem_flatMap.mpr ⟨p, hp, hx⟩)))
      hobject hvs fun u hu => hn u (List.mem_append_left _ hu)
  obtain ⟨sc', hsc', hscwell, hscconvert⟩ :=
    written_superclass { sur with classVariables := es } hclass
      (fun x hx => hnames x (List.mem_append_right _ (List.mem_append_left _ hx))) hobject hsc
      fun u hu => hn u (by simp [Option.mem_def.mp hu])
  obtain ⟨is', his', hiswritten, _⟩ := mapM_of_forall₂ (f := Shape.classSignature s)
    (W := fun u c => c.isWellFormed ∧ (Script.classShape { sur with classVariables := es } c).Ends
        (known s sur.enclosing) (some u)) (S := fun _ _ => True) his
    fun c hc u hu hend => by
      obtain ⟨c', hwrite, hwell, hconvert⟩ :=
        written_supertype { sur with classVariables := es }
          (List.all_eq_true.mp hclasses c hc)
          (fun x hx => hnames x (List.mem_append_right _ (List.mem_append_right _
            (List.mem_flatMap.mpr ⟨c, hc, hx⟩)))) hend (hn u (by simp [hu]))
      exact ⟨c', hwrite, ⟨hwell, hconvert⟩, trivial⟩
  refine ⟨⟨ps', sc', is'⟩, ?_, ?_, hbounded, ?_⟩
  · rw [ClassDecl.signature, hvars, hsuper, hinterfaces, hps', hsc', his']
    rfl
  · have hisall : is'.all ClassTree.isWellFormed := List.all_eq_true.mpr fun c hc => by
      obtain ⟨_, _, hw⟩ := exists_of_mem_right hiswritten hc
      exact hw.1
    rw [ClassSignature.isWellFormed, hpswell, hscwell, hisall]
    rfl
  · simp only [Script.headerOf, Script.ends_bind_some, Script.ends_mapM_some, Script.ends_pure,
      Option.some.injEq]
    refine ⟨es, parameterErasures_alike hobject halike hes, vs, hpsconvert, sc, hscconvert, is,
      (hiswritten.imp fun _ _ hw => hw.2).flip, rfl⟩

theorem written_return (sur : Surroundings) {r : Option TypeTree} {u : Shape}
    (hwell : r.all TypeTree.isWellFormed)
    (hnames : ∀ t ∈ r, ∀ x ∈ t.identifiers, IsIdentifier x)
    (h : (Script.returnShape sur r).Ends (known s sur.enclosing) (some u))
    (hn : u.nesting ≤ maxDepth) :
    ∃ r', (if u = .void then .ok none else (u.signature s).map some) = .ok r' ∧
      r'.all TypeTree.isWellFormed ∧
      (Script.returnShape sur r').Ends (known s sur.enclosing) (some u) := by
  cases r with
  | none =>
    obtain rfl := Option.some.inj h
    exact ⟨none, rfl, rfl, rfl⟩
  | some t =>
    obtain ⟨t', hw, _⟩ := written_shape hwell (hnames t rfl) h hn
    have hvoid : u ≠ .void := by
      rintro rfl
      have hwrite := hw.write
      rw [Shape.void, ofShape, ofErased] at hwrite
      cases hwrite
    refine ⟨some t', ?_, hw.wellFormed, hw.convert⟩
    rw [if_neg hvoid, Shape.signature, hw.write]
    rfl

theorem written_throws (sur : Surroundings) {ts : List TypeTree} {us : List Shape}
    (hwell : ts.all fun t => t.isThrowable && t.isWellFormed)
    (hnames : ∀ t ∈ ts, ∀ x ∈ t.identifiers, IsIdentifier x)
    (h : List.Forall₂ (Converts s sur) ts us)
    (hn : ∀ u ∈ us, u.nesting ≤ maxDepth) :
    ∃ ts', us.mapM (Shape.signature s) = .ok ts' ∧
      (ts'.all fun t => t.isThrowable && t.isWellFormed) ∧
      List.Forall₂ (Converts s sur) ts'
        us := by
  have hparts : ∀ t ∈ ts, t.isThrowable ∧ t.isWellFormed := fun t ht => by
    simpa only [Bool.and_eq_true] using List.all_eq_true.mp hwell t ht
  obtain ⟨ts', hwrite, hwell', hconvert, halike⟩ :=
    written_shapes sur (fun t ht => (hparts t ht).2) hnames h hn
  refine ⟨ts', hwrite, List.all_eq_true.mpr fun t' ht' => ?_, hconvert⟩
  obtain ⟨t, ht, hlike⟩ := exists_of_mem_right halike ht'
  rw [hlike.isThrowable, (hparts t ht).1, hwell' t' ht']
  rfl

theorem written_exceptions (sur : Surroundings) {ts : List TypeTree} {us exceptions : List Shape}
    (hwell : ts.all fun t => t.isThrowable && t.isWellFormed)
    (hnames : ∀ t ∈ ts, ∀ x ∈ t.identifiers, IsIdentifier x)
    (h : List.Forall₂ (Converts s sur) ts us)
    (hexceptions : exceptions.any Shape.isGeneric → exceptions = us)
    (hn : ∀ u ∈ exceptions, u.nesting ≤ maxDepth) :
    ∃ ts', (if exceptions.any Shape.isGeneric then exceptions.mapM (Shape.signature s)
        else .ok []) = .ok ts' ∧
      (ts'.all fun t => t.isThrowable && t.isWellFormed) ∧
      List.Forall₂ (Converts s sur) ts'
        (if exceptions.any Shape.isGeneric then exceptions else []) := by
  split
  case isTrue hany =>
    obtain rfl := hexceptions hany
    exact written_throws sur hwell hnames h hn
  case isFalse => exact ⟨[], rfl, rfl, .nil⟩

theorem signature_of_parts {m : Method} {ps : List TypeParameter} {ts throws : List TypeTree}
    {r : Option TypeTree} (hps : m.typeVariables.mapM (TypeVarDecl.parameter s) = .ok ps)
    (hts : m.parameterTypes.mapM (Shape.signature s) = .ok ts)
    (hr : (if m.returnType = .void then .ok none else (m.returnType.signature s).map some) = .ok r)
    (hthrows : (if m.exceptions.any Shape.isGeneric then m.exceptions.mapM (Shape.signature s)
      else .ok []) = .ok throws) :
    m.signature s = .ok ⟨ps, ts, r, throws⟩ := by
  have hlast : ∀ r, (if m.exceptions.any Shape.isGeneric then
      m.exceptions.mapM (Shape.signature s) >>= fun throws => .ok ⟨ps, ts, r, throws⟩
      else .ok ⟨ps, ts, r, []⟩) =
        (.ok ⟨ps, ts, r, throws⟩ : Except Unwritable MethodSignature) := by
    intro r
    split at hthrows
    case isTrue hany =>
      rw [if_pos hany, hthrows]
      rfl
    case isFalse hany =>
      cases hthrows
      rw [if_neg hany]
  rw [Method.signature, hps, hts]
  refine Eq.trans ?_ (hlast r)
  split at hr
  case isTrue hvoid =>
    cases hr
    simp only [hvoid, if_true]
    rfl
  case isFalse hvoid =>
    simp only [hvoid, if_false, hr]
    rfl

/-- The signature that is written for a method is converted to the types of the method. Exceptions
are written only if one of them is generic. -/
theorem written_method (sur : Surroundings) {m : Method} {sig : MethodSignature}
    {types : MethodTypes} {es : Erasures} (hwell : sig.isWellFormed)
    (hnames : ∀ x ∈ sig.identifiers, IsIdentifier x)
    (hobject : s.lookup? "java.lang.Object" = some .object)
    (hes : (Script.parameterErasures sur sig.typeParameters).Ends (known s sur.enclosing) (some es))
    (h : (Script.methodTypesIn { sur with methodVariables := es } sig).Ends
      (known s sur.enclosing) (some types))
    (hvars : m.typeVariables = types.typeVariables) (hps : m.parameterTypes = types.parameters)
    (hr : m.returnType = types.returnType)
    (hexceptions : m.exceptions.any Shape.isGeneric → m.exceptions = types.exceptions)
    (hn : ∀ u ∈ m.typeVariables.flatMap (·.bounds) ++ m.returnType ::
      (m.parameterTypes ++ m.exceptions), u.nesting ≤ maxDepth) :
    ∃ sig', m.signature s = .ok sig' ∧ sig'.isWellFormed ∧ Bounded sig'.typeParameters ∧
      (Script.parameterErasures sur sig'.typeParameters).Ends (known s sur.enclosing) (some es) ∧
      (Script.methodTypesIn { sur with methodVariables := es } sig').Ends (known s sur.enclosing)
        (some ⟨m.typeVariables, m.parameterTypes, m.returnType,
          if m.exceptions.any Shape.isGeneric then m.exceptions else []⟩) := by
  obtain ⟨hvs, hts, hreturn, hthrown⟩ := Script.ends_methodTypesIn.mp h
  simp only [MethodSignature.isWellFormed, Bool.and_eq_true] at hwell
  obtain ⟨⟨⟨hpswell, htswell⟩, hrwell⟩, hthrowswell⟩ := hwell
  have htree : ∀ t ∈ sig.parameters ++ sig.returnType.toList ++ sig.throws,
      ∀ x ∈ t.identifiers, IsIdentifier x := fun t ht x hx =>
    hnames x (List.mem_append_right _ (List.mem_flatMap.mpr ⟨t, ht, hx⟩))
  obtain ⟨ps', hps', hpswell', hbounded, halike, hpsconvert⟩ :=
    written_parameters { sur with methodVariables := es } hpswell
      (fun p hp x hx => hnames x (List.mem_append_left _ (List.mem_flatMap.mpr ⟨p, hp, hx⟩)))
      hobject hvs fun u hu => hn u (List.mem_append_left _ (by rwa [hvars]))
  obtain ⟨ts', hts', htswell', htsconvert, _⟩ :=
    written_shapes { sur with methodVariables := es } (List.all_eq_true.mp htswell)
      (fun t ht => htree t (by simp [ht])) hts fun u hu => hn u (by simp [hps, hu])
  obtain ⟨r', hr', hrwell', hrconvert⟩ :=
    written_return { sur with methodVariables := es } hrwell
      (fun t ht => htree t (by simp [Option.mem_def.mp ht])) hreturn (hn _ (by simp [hr]))
  obtain ⟨throws', hthrows', hthrowswell', hthrowsconvert⟩ :=
    written_exceptions { sur with methodVariables := es } hthrowswell
      (fun t ht => htree t (by simp [ht])) hthrown hexceptions fun u hu => hn u (by simp [hu])
  refine ⟨⟨ps', ts', r', throws'⟩, ?_, ?_, hbounded, parameterErasures_alike hobject halike hes, ?_⟩
  · rw [← hvars] at hps'
    rw [← hps] at hts'
    rw [← hr] at hr'
    exact signature_of_parts hps' hts' hr' hthrows'
  · rw [MethodSignature.isWellFormed, hpswell', List.all_eq_true.mpr htswell', hrwell',
      hthrowswell']
    rfl
  · rw [hvars, hps, hr]
    exact Script.ends_methodTypesIn.mpr ⟨hpsconvert, htsconvert, hrconvert, hthrowsconvert⟩

end Loader

end JvmTypes
