import JvmTypes.Proofs.Loader.Visibility
/-!
# The conversions show what their signatures saw

A signature whose types come out like those of a descriptor mentions no type variable. Hence a
declaration shows all the variables that its signatures looked for.
-/
namespace JvmTypes.Loader.Script

open Signature

variable {A : Answers} {s : Store} {enclosing : Option ClassId} {sur : Surroundings}

theorem applyTo_cases (owner : Option Shape) (raw : ClassId) (as : List Shape) :
    (∃ o, applyTo owner raw as = .applied raw as o) ∨
      (applyTo owner raw as = .ofClass raw ∧ as = [] ∧
        ∀ raw' as' o, owner ≠ some (.applied raw' as' o)) := by
  unfold applyTo
  split
  · exact Or.inl ⟨_, rfl⟩
  · rename_i hplain
    cases as with
    | nil => exact Or.inr ⟨rfl, rfl, fun raw' as' o h => hplain raw' as' o h⟩
    | cons a as => exact Or.inl ⟨_, rfl⟩

theorem classShape_cases {c : ClassTree} {u : Shape} (h : (classShape sur c).Ends A (some u)) :
    (∃ e, u = .plain e) ∨ ∃ raw as o, u = .applied raw as o := by
  have happly : ∀ owner raw as, applyTo owner raw as = u →
      (∃ e, u = .plain e) ∨ ∃ raw as o, u = .applied raw as o := by
    rintro owner raw as rfl
    rcases applyTo_cases owner raw as with ⟨o, ho⟩ | ⟨ho, _⟩
    · exact Or.inr ⟨raw, as, o, ho⟩
    · exact Or.inl ⟨.cls raw, ho⟩
  cases c with
  | top package name as =>
    rw [classShape] at h
    obtain ⟨raw, _, h⟩ := ends_bind_some.mp h
    obtain ⟨as', _, hu⟩ := ends_bind_some.mp h
    exact happly none raw as' (Option.some.inj hu).symm
  | member outer name as =>
    rw [classShape] at h
    obtain ⟨owner, _, h⟩ := ends_bind_some.mp h
    obtain ⟨raw, _, h⟩ := ends_bind_some.mp h
    obtain ⟨as', _, hu⟩ := ends_bind_some.mp h
    exact happly (some owner) raw as' (Option.some.inj hu).symm

theorem arguments_eq_nil {as : List Argument} (h : (arguments sur as).Ends A (some [])) :
    as = [] := by
  cases as with
  | nil => rfl
  | cons a as =>
    rw [arguments] at h
    obtain ⟨t, _, h⟩ := ends_bind_some.mp h
    obtain ⟨ts, _, h⟩ := ends_bind_some.mp h
    cases h

theorem classNamed_blind {c : ClassTree} {id : ClassId}
    (h : (classNamed c).Ends (exactly s enclosing) (some id)) :
    (classNamed c).Ends (blindly s) (some id) := by
  rcases h with ⟨i, hi, h⟩ | ⟨hf, _⟩
  · exact Or.inl ⟨i, hi, h⟩
  · exact hf.elim

mutual

theorem shape_blind :
    (t : TypeTree) → ∀ {e : Erased}, (shape sur t).Ends (exactly s enclosing) (some (.plain e)) →
    (shape sur t).Ends (blindly s) (some (.plain e))
  | .base b, e, h => by
    rw [shape] at h ⊢
    exact h
  | .array c, e, h => by
    rw [shape] at h ⊢
    obtain ⟨c', hc, he⟩ := ends_bind_some.mp h
    have harray : Shape.arrayOf c' = .plain e := (Option.some.inj he).symm
    cases c' with
    | plain e' => exact ends_bind_some.mpr ⟨.plain e', shape_blind c hc, he⟩
    | array _ | applied _ _ _ | upper _ | lower _ | «variable» _ => simp [Shape.arrayOf] at harray
  | .classType c, e, h => by
    rw [shape] at h ⊢
    exact classShape_blind c h
  | .variable name, e, h => by
    rw [shape] at h
    obtain ⟨v, _, he⟩ := ends_bind_some.mp h
    cases he

theorem classShape_blind : (c : ClassTree) → ∀ {e : Erased},
    (classShape sur c).Ends (exactly s enclosing) (some (.plain e)) →
    (classShape sur c).Ends (blindly s) (some (.plain e))
  | .top package name as, e, h => by
    rw [classShape] at h ⊢
    obtain ⟨raw, hraw, h⟩ := ends_bind_some.mp h
    obtain ⟨as', has, he⟩ := ends_bind_some.mp h
    have happly : applyTo none raw as' = .plain e := (Option.some.inj he).symm
    rcases applyTo_cases none raw as' with ⟨o, ho⟩ | ⟨_, rfl, _⟩
    · rw [happly] at ho
      cases ho
    · obtain rfl := arguments_eq_nil has
      refine ends_bind_some.mpr ⟨raw, classNamed_blind hraw, ends_bind_some.mpr ⟨[], ?_, he⟩⟩
      rw [arguments]
      rfl
  | .member outer name as, e, h => by
    rw [classShape] at h ⊢
    obtain ⟨owner, howner, h⟩ := ends_bind_some.mp h
    obtain ⟨raw, hraw, h⟩ := ends_bind_some.mp h
    obtain ⟨as', has, he⟩ := ends_bind_some.mp h
    have happly : applyTo (some owner) raw as' = .plain e := (Option.some.inj he).symm
    rcases applyTo_cases (some owner) raw as' with ⟨o, ho⟩ | ⟨_, rfl, hplain⟩
    · rw [happly] at ho
      cases ho
    · obtain rfl := arguments_eq_nil has
      obtain ⟨e', rfl⟩ : ∃ e', owner = .plain e' := by
        rcases classShape_cases howner with hplain' | ⟨raw', as', o, rfl⟩
        · exact hplain'
        · exact absurd rfl (hplain raw' as' o)
      refine ends_bind_some.mpr ⟨.plain e', classShape_blind outer howner,
        ends_bind_some.mpr ⟨raw, classNamed_blind hraw, ends_bind_some.mpr ⟨[], ?_, he⟩⟩⟩
      rw [arguments]
      rfl

end

theorem mapM_blind {τ : Type} {f : τ → Script Shape}
    (hf : ∀ t e, (f t).Ends (exactly s enclosing) (some (.plain e)) →
        (f t).Ends (blindly s) (some (.plain e))) {ts : List τ} {us : List Shape}
    (h : (ts.mapM f).Ends (exactly s enclosing) (some us)) (hplain : ∀ u ∈ us, ∃ e, u = .plain e) :
    (ts.mapM f).Ends (blindly s) (some us) := by
  rw [ends_mapM_some] at h ⊢
  induction h with
  | nil => exact .nil
  | @cons t u ts us hu _ ih =>
    obtain ⟨e, rfl⟩ := hplain u (by simp)
    exact .cons (hf t e hu) (ih fun u hu => hplain u (by simp [hu]))

theorem parameterErasures_nil : (parameterErasures sur []).Ends A (some []) := by
  simp [parameterErasures, List.mapM_nil]

/-- Two headers that give a class the same type variables and super types. -/
def Header.Same (a b : Header) : Prop :=
  a.typeVariables = b.typeVariables ∧ a.superclass = b.superclass ∧ a.interfaces = b.interfaces

theorem headerOf_blind {isInterface : Bool} {sig : ClassSignature} {h : Header}
    (hh : (headerOf sur isInterface sig).Ends (exactly s enclosing) (some h))
    (hvars : h.typeVariables = [])
    (hplain : ∀ t ∈ h.superclass.toList ++ h.interfaces, ∃ e, t = .plain e) :
    (headerOf sur isInterface sig).Ends (blindly s) (some h) := by
  simp only [headerOf, ends_bind_some] at hh ⊢
  obtain ⟨es, hes, vs, hvs, sc, hsc, is, his, hh⟩ := hh
  obtain rfl := Option.some.inj hh
  obtain rfl : vs = [] := hvars
  have hparams : sig.typeParameters = [] := List.forall₂_nil_right_iff.mp (ends_mapM_some.mp hvs)
  rw [hparams] at hes ⊢
  obtain rfl : es = [] :=
    Option.some.inj (hes.unique (functional_exactly s enclosing) parameterErasures_nil)
  refine ⟨[], parameterErasures_nil, [], by simp [List.mapM_nil], sc, ?_, is, ?_, hh⟩
  · unfold superclassOf at hsc ⊢
    cases isInterface with
    | true => exact hsc
    | false =>
      obtain ⟨t, ht, hsc⟩ := ends_bind_some.mp hsc
      obtain rfl := Option.some.inj hsc
      obtain ⟨e, rfl⟩ := hplain t (by simp)
      exact ends_bind_some.mpr ⟨.plain e, classShape_blind sig.superclass ht, rfl⟩
  · exact mapM_blind (fun c _ => classShape_blind c) his fun u hu => hplain u (by simp [hu])

theorem header_shows (stub : ClassStub) : Shows s enclosing (header sur stub) Header.Same := by
  refine shows_signed ?_ ((plainHeader_uniform (ρ := id) stub).unforgiving rfl) ?_
  · exact fun text =>
      (converted_uniform (fun sig => headerOf_uniform (ρ := id) rfl _ sig) text).unforgiving rfl
  · rintro text a b ha hb ⟨hvars, hsuper, hinterfaces⟩
    obtain ⟨_, hnone, hplain⟩ := ends_plainHeader ha
    obtain ⟨sig, hparse, hb⟩ := ends_converted hb
    simp only [converted, hparse]
    exact headerOf_blind hb (hvars.symm.trans hnone) (by rwa [← hsuper, ← hinterfaces])

theorem fieldType_shows (owner : String) (signature : Option String) (descriptor : FieldType) :
    Shows s enclosing (fromSignature owner signature (converted TypeTree.parse (shape sur))
      >>= fun found => orPlain found (fieldShape descriptor)) Eq := by
  refine shows_signed ?_ ((fieldShape_uniform (ρ := id) descriptor).unforgiving rfl) ?_
  · exact fun text =>
      (converted_uniform (fun t => shape_uniform (ρ := id) rfl t) text).unforgiving rfl
  · rintro text a _ ha hb rfl
    obtain ⟨e, rfl⟩ := ends_fieldShape ha
    obtain ⟨tree, hparse, hb⟩ := ends_converted hb
    simp only [converted, hparse]
    exact shape_blind tree hb

theorem fieldDecl_shows (className : String) (stub : FieldStub) :
    Shows s enclosing (fieldDecl sur className stub) Eq := by
  unfold fieldDecl
  cases stub.type with
  | error invalid => exact (Unforgiving.fail _).shows _
  | ok descriptor =>
    simp only [← bind_assoc]
    refine (fieldType_shows _ stub.signature descriptor).bind ?_ fun type =>
      (Unforgiving.done _).shows _
    rintro a b c d hc hd rfl
    obtain rfl := Option.some.inj hc
    exact congrArg FieldDecl.type (Option.some.inj hd)

/-- Two lists of types that give a method the same declaration, where the second may name exceptions
of its own. -/
structure MethodTypes.Same (a b : MethodTypes) : Prop where
  typeVariables : a.typeVariables = b.typeVariables
  parameters : a.parameters = b.parameters
  returnType : a.returnType = b.returnType
  exceptions : a.exceptions = [] → ∀ t ∈ b.exceptions, ∃ e, t = .plain e

theorem methodTypesOf_blind {descriptor : MethodDescriptor} {sig : MethodSignature}
    {types : MethodTypes}
    (h : (methodTypesOf sur descriptor sig).Ends (exactly s enclosing) (some types))
    (hvars : types.typeVariables = [])
    (hplain : ∀ t ∈ types.returnType :: (types.parameters ++ types.exceptions), ∃ e, t = .plain e) :
    (methodTypesOf sur descriptor sig).Ends (blindly s) (some types) := by
  unfold methodTypesOf at h ⊢
  split at h
  · cases h
  · rename_i hcount
    rw [if_neg hcount]
    simp only [methodTypesIn, ends_bind_some] at h ⊢
    obtain ⟨es, hes, vs, hvs, ps, hps, r, hr, exs, hexs, h⟩ := h
    obtain rfl := Option.some.inj h
    obtain rfl : vs = [] := hvars
    have hparams : sig.typeParameters = [] := List.forall₂_nil_right_iff.mp (ends_mapM_some.mp hvs)
    rw [hparams] at hes ⊢
    obtain rfl : es = [] :=
      Option.some.inj (hes.unique (functional_exactly s enclosing) parameterErasures_nil)
    refine ⟨[], parameterErasures_nil, [], by simp [List.mapM_nil], ps, ?_, r, ?_, exs, ?_, h⟩
    · exact mapM_blind (fun t _ => shape_blind t) hps fun u hu => hplain u (by simp [hu])
    · obtain ⟨e, rfl⟩ := hplain r (by simp)
      cases hreturn : sig.returnType with
      | none =>
        rw [hreturn] at hr
        exact hr
      | some t =>
        rw [hreturn] at hr
        exact shape_blind t hr
    · exact mapM_blind (fun t _ => shape_blind t) hexs fun u hu => hplain u (by simp [hu])

theorem exceptionTypes_unforgiving (stub : MethodStub) (types : MethodTypes) :
    (exceptionTypes stub types).Unforgiving :=
      (exceptionTypes_uniform (ρ := id) stub types).unforgiving rfl

theorem methodTypes_shows (owner : String) (signature : Option String)
    (descriptor : MethodDescriptor) :
    Shows s enclosing
      (fromSignature owner signature
        (converted MethodSignature.parse (methodTypesOf sur descriptor))
      >>= fun found => orPlain found (plainTypes descriptor)) MethodTypes.Same := by
  refine shows_signed ?_ ((plainTypes_uniform (ρ := id) descriptor).unforgiving rfl) ?_
  · exact fun text =>
      (converted_uniform (fun sig => methodTypesOf_uniform (ρ := id) rfl descriptor sig)
        text).unforgiving rfl
  · rintro text a b ha hb hsame
    obtain ⟨hvars, hnone, hplain⟩ := ends_plainTypes ha
    obtain ⟨sig, hparse, hb⟩ := ends_converted hb
    simp only [converted, hparse]
    refine methodTypesOf_blind hb (hsame.typeVariables.symm.trans hvars) ?_
    intro t ht
    rcases List.mem_cons.mp ht with rfl | ht
    · exact hplain _ (by simp [hsame.returnType])
    · rcases List.mem_append.mp ht with ht | ht
      · exact hplain t (by simp [hsame.parameters, ht])
      · exact hsame.exceptions hnone t ht

theorem same_of_methodDeclWith {A B : Answers} {stub : MethodStub} {a b : MethodTypes}
    {ea eb : List Shape} (hea : (exceptionTypes stub a).Ends A (some ea))
    (heb : (exceptionTypes stub b).Ends B (some eb))
    (h : methodDeclWith stub a ea = methodDeclWith stub b eb) : MethodTypes.Same a b := by
  have hexceptions : ea = eb := congrArg MethodDecl.exceptions h
  have hparameters := congrArg (fun m => m.parameters.map (·.type)) h
  simp only [methodDeclWith, types_of_parameterDecls] at hparameters
  refine ⟨congrArg MethodDecl.typeVariables h, hparameters, congrArg MethodDecl.returnType h, ?_⟩
  intro hnone t ht
  rcases ends_exceptionTypes heb with ⟨hb, _⟩ | rfl
  · simp [hb] at ht
  · rcases ends_exceptionTypes hea with ⟨_, hplain⟩ | hea
    · exact hplain t (by rwa [hexceptions])
    · rw [← hexceptions, hea, hnone] at ht
      simp at ht

theorem methodDecl_shows (className : String) (stub : MethodStub) :
    Shows s enclosing (methodDecl sur className stub) Eq := by
  unfold methodDecl
  cases stub.type with
  | error invalid => exact (Unforgiving.fail _).shows _
  | ok descriptor =>
    simp only [← bind_assoc]
    refine (methodTypes_shows _ stub.signature descriptor).bind ?_ fun types => ?_
    · rintro a b c d hc hd rfl
      obtain ⟨ea, hea, hc⟩ := ends_bind_some.mp hc
      obtain ⟨eb, heb, hd⟩ := ends_bind_some.mp hd
      obtain rfl := Option.some.inj hc
      exact same_of_methodDeclWith hea heb (Option.some.inj hd)
    · have hexceptions : Shows s enclosing (exceptionTypes stub types) Eq :=
        (exceptionTypes_unforgiving stub types).shows _
      refine hexceptions.bind ?_ fun ts => (Unforgiving.done _).shows _
      rintro a b c d hc hd rfl
      obtain rfl := Option.some.inj hc
      exact congrArg MethodDecl.exceptions (Option.some.inj hd)

theorem classBody_shows (id : ClassId) (declaring : Option ClassId) (stub : ClassStub) :
    Shows s enclosing (classBody id declaring stub) Eq := by
  refine (header_shows stub).bind ?_ fun header => ?_
  · rintro a b c d hc hd rfl
    obtain ⟨_, _, hc⟩ := ends_bind_some.mp hc
    obtain ⟨_, _, hc⟩ := ends_bind_some.mp hc
    obtain ⟨_, _, hd⟩ := ends_bind_some.mp hd
    obtain ⟨_, _, hd⟩ := ends_bind_some.mp hd
    obtain rfl := Option.some.inj hc
    have heq := Option.some.inj hd
    exact ⟨congrArg ClassDecl.typeVariables heq, congrArg ClassDecl.superclass heq,
      congrArg ClassDecl.interfaces heq⟩
  · refine (Shows.mapM (fun f => fieldDecl_shows stub.name f) stub.fields).bind ?_ fun fields => ?_
    · rintro a b c d hc hd rfl
      obtain ⟨_, _, hc⟩ := ends_bind_some.mp hc
      obtain ⟨_, _, hd⟩ := ends_bind_some.mp hd
      obtain rfl := Option.some.inj hc
      obtain rfl : a = b := congrArg ClassDecl.fields (Option.some.inj hd)
      exact List.forall₂_refl a
    · refine (Shows.mapM (fun m => methodDecl_shows stub.name m) stub.methods).bind ?_
        fun methods => (Unforgiving.done _).shows _
      rintro a b c d hc hd rfl
      obtain rfl := Option.some.inj hc
      obtain rfl : a = b := congrArg ClassDecl.methods (Option.some.inj hd)
      exact List.forall₂_refl a

theorem classDecl_shows (id : ClassId) (stub : ClassStub) :
    Shows s enclosing (classDecl id stub) Eq := by
  unfold classDecl
  cases stub.declaring with
  | none => exact classBody_shows id none stub
  | some name => exact .askClass fun declaring => classBody_shows id (some declaring) stub

/-- A declaration that comes out as with every variable in sight asked for nothing more. -/
theorem asks_of_classDecl {id : ClassId} {stub : ClassStub} {decl : ClassDecl} {names : List String}
    (h : (classDecl id stub).Trace (loosely s enclosing) (some decl) names)
    (hexact : (classDecl id stub).Ends (exactly s enclosing) (some decl)) :
    ∀ n ∈ names, (classDecl id stub).Asks (exactly s enclosing) (.cls n) :=
  (classDecl_shows id stub decl decl names h hexact rfl).2

end JvmTypes.Loader.Script
