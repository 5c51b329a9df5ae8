import JvmTypes.Proofs.Loader.ConversionScript
import JvmTypes.Proofs.Loader.Uniform
/-!
# The conversions are uniform

No conversion looks into the place of a class, so with all places renamed it yields the renamed
declaration. Only the root class has to keep its place, since a variable without a bound is bounded
by it.
-/
namespace JvmTypes.Loader

open Signature

variable (ρ : ClassId → ClassId)

def Erasures.rename (es : Erasures) : Erasures := es.map fun (name, e) => (name, e.rename ρ)

def Surroundings.rename (sur : Surroundings) : Surroundings where
  declaring := ρ sur.declaring
  enclosing := sur.enclosing.map ρ
  classVariables := Erasures.rename ρ sur.classVariables
  methodVariables := Erasures.rename ρ sur.methodVariables

def Header.rename (h : Header) : Header where
  typeVariables := h.typeVariables.map (TypeVarDecl.rename ρ)
  superclass := h.superclass.map (Shape.rename ρ)
  interfaces := h.interfaces.map (Shape.rename ρ)
  surroundings := h.surroundings.rename ρ

def MethodTypes.rename (t : MethodTypes) : MethodTypes where
  typeVariables := t.typeVariables.map (TypeVarDecl.rename ρ)
  parameters := t.parameters.map (Shape.rename ρ)
  returnType := t.returnType.rename ρ
  exceptions := t.exceptions.map (Shape.rename ρ)

variable {ρ}

theorem Erasures.get?_rename (es : Erasures) (name : String) :
    Erasures.get? (es.rename ρ) name = (es.get? name).map (Erased.rename ρ) := by
  simp only [get?, rename, ← List.map_reverse, List.find?_map, Option.map_map]
  rfl

theorem rename_applyTo (owner : Option Shape) (raw : ClassId) (as : List Shape) :
    (applyTo owner raw as).rename ρ =
      applyTo (owner.map (Shape.rename ρ)) (ρ raw) (as.map (Shape.rename ρ)) := by
  have halone : (if as.isEmpty then Shape.ofClass raw else .applied raw as none).rename ρ =
      if (as.map (Shape.rename ρ)).isEmpty then .ofClass (ρ raw)
      else .applied (ρ raw) (as.map (Shape.rename ρ)) none := by
    cases as with
    | nil => exact Shape.rename_ofClass raw
    | cons a as => exact Shape.rename_applied raw (a :: as) none
  cases owner with
  | none => exact halone
  | some o =>
    cases o with
    | applied raw' as' o' =>
      simp only [applyTo, Option.map_some, Shape.rename_applied]
    | plain _ | array _ | upper _ | lower _ | «variable» _ => exact halone

theorem rename_parameterDecls (recorded : List ParameterStub) (types : List Shape) :
    (parameterDecls recorded types).map (ParameterDecl.rename ρ) =
      parameterDecls recorded (types.map (Shape.rename ρ)) := by
  unfold parameterDecls
  rw [List.length_map]
  split
  · rw [List.map_map, List.zip_map_left, List.map_map]
    rfl
  · rw [List.map_map, List.map_map]
    rfl

namespace Script

variable {tries : Bool} {sur : Surroundings}

theorem variableNamed_uniform (name : String) :
    Uniform ρ tries (TypeVariable.rename ρ) (variableNamed sur name)
      (variableNamed (sur.rename ρ) name) := by
  have hm := Erasures.get?_rename (ρ := ρ) sur.methodVariables name
  have hc := Erasures.get?_rename (ρ := ρ) sur.classVariables name
  simp only [variableNamed, Surroundings.rename, hm, hc]
  cases Erasures.get? sur.methodVariables name with
  | some e => exact .pure rfl
  | none =>
    cases Erasures.get? sur.classVariables name with
    | some e => exact .pure rfl
    | none =>
      refine .askVariable rfl fun v => ?_
      cases v with
      | none => exact .fail _
      | some v => exact .pure rfl

theorem classNamed_uniform (c : ClassTree) : Uniform ρ tries ρ (classNamed c) (classNamed c) :=
  .askClass fun id => .done id

theorem converted_uniform {parse : String → Except Signature.Invalid τ} {convert : τ → Script α}
    {convert' : τ → Script β} {r : α → β}
    (h : ∀ tree, Uniform ρ tries r (convert tree) (convert' tree)) (text : String) :
    Uniform ρ tries r (converted parse convert text) (converted parse convert' text) := by
  unfold converted
  cases parse text with
  | ok tree => exact h tree
  | error error => exact .fail _

theorem fromSignature_uniform {convert : String → Script α} {convert' : String → Script β}
    {r : α → β} (h : ∀ text, Uniform ρ false r (convert text) (convert' text)) (owner : String)
    (signature : Option String) :
    Uniform ρ true (Option.map r) (fromSignature owner signature convert)
      (fromSignature owner signature convert') := by
  cases signature with
  | none => exact .pure rfl
  | some text => exact .attempt (h text) fun b => .done b

theorem orPlain_uniform {r : α → β} {plain : Script α} {plain' : Script β}
    (h : Uniform ρ tries r plain plain') (found : Option α) :
    Uniform ρ tries r (orPlain found plain) (orPlain (found.map r) plain') := by
  cases found with
  | some a => exact .pure rfl
  | none => exact h

theorem rename_object (hobject : ρ .object = .object) : Shape.object.rename ρ = .object := by
  rw [Shape.object, Shape.rename_ofClass, hobject]

mutual

theorem shape_uniform (hobject : ρ .object = .object) : (t : TypeTree) →
    Uniform ρ tries (Shape.rename ρ) (shape sur t) (shape (sur.rename ρ) t)
  | .base b => by
    rw [shape, shape]
    exact .pure rfl
  | .array c => by
    rw [shape, shape]
    refine (shape_uniform hobject c).bind fun c => ?_
    exact .pure (Shape.rename_arrayOf c).symm
  | .classType c => by
    rw [shape, shape]
    exact classShape_uniform hobject c
  | .variable name => by
    rw [shape, shape]
    refine (variableNamed_uniform name).bind fun v => ?_
    exact .pure (by rw [Shape.rename])

theorem classShape_uniform (hobject : ρ .object = .object) : (c : ClassTree) →
    Uniform ρ tries (Shape.rename ρ) (classShape sur c) (classShape (sur.rename ρ) c)
  | .top package name as => by
    rw [classShape, classShape]
    refine (classNamed_uniform _).bind fun raw => ?_
    refine (arguments_uniform hobject as).bind fun as => ?_
    exact .pure (rename_applyTo none raw as).symm
  | .member outer name as => by
    rw [classShape, classShape]
    refine (classShape_uniform hobject outer).bind fun owner => ?_
    refine (classNamed_uniform _).bind fun raw => ?_
    refine (arguments_uniform hobject as).bind fun as => ?_
    exact .pure (rename_applyTo (some owner) raw as).symm

theorem arguments_uniform (hobject : ρ .object = .object) : (as : List Argument) →
    Uniform ρ tries (List.map (Shape.rename ρ)) (arguments sur as) (arguments (sur.rename ρ) as)
  | [] => by
    rw [arguments, arguments]
    exact .pure rfl
  | a :: as => by
    rw [arguments, arguments]
    refine (argument_uniform hobject a).bind fun a => ?_
    refine (arguments_uniform hobject as).bind fun as => ?_
    exact .pure rfl

theorem argument_uniform (hobject : ρ .object = .object) : (a : Argument) →
    Uniform ρ tries (Shape.rename ρ) (argument sur a) (argument (sur.rename ρ) a)
  | .any => by
    rw [argument, argument]
    exact .pure (by rw [Shape.unbounded, Shape.rename, rename_object hobject])
  | .exact t => by
    rw [argument, argument]
    exact shape_uniform hobject t
  | .extends t => by
    rw [argument, argument]
    refine (shape_uniform hobject t).bind fun t => ?_
    exact .pure (by rw [Shape.rename])
  | .super t => by
    rw [argument, argument]
    refine (shape_uniform hobject t).bind fun t => ?_
    exact .pure (by rw [Shape.rename])

end

section Root

variable (hobject : ρ .object = .object)
include hobject

theorem parameterErasure_uniform (params : List TypeParameter) (steps : Nat) (visited : List Nat)
    (place : Nat) :
    Uniform ρ tries (Erased.rename ρ) (parameterErasure sur params steps visited place)
      (parameterErasure (sur.rename ρ) params steps visited place) := by
  have hroot : Erased.object = Erased.object.rename ρ := by
    rw [Erased.object, Erased.rename, hobject]
  induction steps generalizing visited place with
  | zero => exact .pure hroot
  | succ steps ih =>
    rw [parameterErasure, parameterErasure]
    cases params[place]? with
    | none => exact .pure hroot
    | some p =>
      cases hbound : p.bounds.head? with
      | none =>
        simp only [hbound]
        exact .pure hroot
      | some bound =>
        cases bound with
        | «variable» name =>
          simp only [hbound]
          cases params.findIdx? (·.name = name) with
          | none =>
            refine (variableNamed_uniform name).bind fun v => ?_
            exact .pure rfl
          | some next =>
            by_cases hvisited : place ∈ visited
            · simp only [hvisited, if_true]
              exact .fail _
            · simp only [hvisited, if_false]
              exact ih (place :: visited) next
        | classType c =>
          simp only [hbound]
          refine (classNamed_uniform c).bind fun id => ?_
          exact .pure (by rw [Erased.rename])
        | base b =>
          simp only [hbound]
          exact .fail _
        | array c =>
          simp only [hbound]
          exact .fail _

theorem parameterErasures_uniform (params : List TypeParameter) :
    Uniform ρ tries (Erasures.rename ρ) (parameterErasures sur params)
      (parameterErasures (sur.rename ρ) params) := by
  refine Uniform.mapM (fun entry => ?_) _
  refine (parameterErasure_uniform hobject params _ [] entry.1).bind fun e => ?_
  exact .pure rfl

theorem typeVariable_uniform (p : TypeParameter) :
    Uniform ρ tries (TypeVarDecl.rename ρ) (typeVariable sur p)
      (typeVariable (sur.rename ρ) p) := by
  unfold typeVariable
  cases p.bounds with
  | nil =>
    refine .pure ?_
    rw [TypeVarDecl.rename, TypeVarDecl.mapBounds, List.map_singleton, rename_object hobject]
  | cons b bs =>
    refine (Uniform.mapM (fun t => shape_uniform hobject t) (b :: bs)).bind fun bounds => ?_
    exact .pure rfl

theorem superclassOf_uniform (isInterface : Bool) (c : ClassTree) :
    Uniform ρ tries (Option.map (Shape.rename ρ)) (superclassOf sur isInterface c)
      (superclassOf (sur.rename ρ) isInterface c) := by
  unfold superclassOf
  cases isInterface with
  | true => exact .pure rfl
  | false =>
    refine (classShape_uniform hobject c).bind fun t => ?_
    exact .pure rfl

theorem headerOf_uniform (isInterface : Bool) (sig : ClassSignature) :
    Uniform ρ tries (Header.rename ρ) (headerOf sur isInterface sig)
      (headerOf (sur.rename ρ) isInterface sig) := by
  refine (parameterErasures_uniform hobject sig.typeParameters).bind fun es => ?_
  refine (Uniform.mapM (fun p => typeVariable_uniform hobject p) sig.typeParameters).bind
    fun vars => ?_
  refine (superclassOf_uniform hobject isInterface sig.superclass).bind fun superclass => ?_
  refine (Uniform.mapM (fun c => classShape_uniform hobject c) sig.interfaces).bind
    fun interfaces => ?_
  exact .pure rfl

theorem returnShape_uniform (t : Option TypeTree) :
    Uniform ρ tries (Shape.rename ρ) (returnShape sur t) (returnShape (sur.rename ρ) t) := by
  cases t with
  | none => exact .pure (by rw [Shape.void, Shape.rename, Erased.rename])
  | some t => exact shape_uniform hobject t

theorem methodTypesIn_uniform (sig : MethodSignature) :
    Uniform ρ tries (MethodTypes.rename ρ) (methodTypesIn sur sig)
      (methodTypesIn (sur.rename ρ) sig) := by
  refine (Uniform.mapM (fun p => typeVariable_uniform hobject p) sig.typeParameters).bind
    fun vars => ?_
  refine (Uniform.mapM (fun t => shape_uniform hobject t) sig.parameters).bind fun parameters => ?_
  refine (returnShape_uniform hobject sig.returnType).bind fun returnType => ?_
  refine (Uniform.mapM (fun t => shape_uniform hobject t) sig.throws).bind fun exceptions => ?_
  exact .pure rfl

theorem methodTypesOf_uniform (descriptor : MethodDescriptor) (sig : MethodSignature) :
    Uniform ρ tries (MethodTypes.rename ρ) (methodTypesOf sur descriptor sig)
      (methodTypesOf (sur.rename ρ) descriptor sig) := by
  unfold methodTypesOf
  by_cases hcount : sig.parameters.length ≠ descriptor.parameters.length
  · rw [if_pos hcount, if_pos hcount]
    exact .fail _
  · rw [if_neg hcount, if_neg hcount]
    refine (parameterErasures_uniform hobject sig.typeParameters).bind fun es => ?_
    exact methodTypesIn_uniform hobject sig

end Root

theorem fieldShape_uniform (t : FieldType) :
    Uniform ρ tries (Shape.rename ρ) (fieldShape t) (fieldShape t) := by
  induction t with
  | base b => exact .pure (by rw [Shape.rename, Erased.rename])
  | array c ih =>
    refine ih.bind fun c => ?_
    exact .pure (Shape.rename_arrayOf c).symm
  | object name =>
    refine .askClass fun id => ?_
    exact .pure (Shape.rename_ofClass id).symm

theorem classNames_uniform (named : String → String) (names : List String) :
    Uniform ρ tries (List.map (Shape.rename ρ))
      (names.mapM fun name => .askClass (named name) fun id => pure (Shape.ofClass id))
      (names.mapM fun name => .askClass (named name) fun id => pure (Shape.ofClass id)) := by
  refine Uniform.mapM (fun name => ?_) names
  refine .askClass fun id => ?_
  exact .pure (Shape.rename_ofClass id).symm

theorem plainSuperclass_uniform (stub : ClassStub) :
    Uniform ρ tries (Option.map (Shape.rename ρ)) (plainSuperclass stub)
      (plainSuperclass stub) := by
  unfold plainSuperclass
  cases stub.superclass with
  | none => exact .pure rfl
  | some name =>
    by_cases hinterface : stub.flags.isInterface = true
    · simp only [hinterface, if_true]
      exact .pure rfl
    · simp only [hinterface]
      refine .askClass fun id => ?_
      exact .pure (congrArg some (Shape.rename_ofClass id).symm)

theorem plainHeader_uniform (stub : ClassStub) :
    Uniform ρ tries (Header.rename ρ) (plainHeader sur stub) (plainHeader (sur.rename ρ) stub) := by
  refine (plainSuperclass_uniform stub).bind fun superclass => ?_
  refine (classNames_uniform id stub.interfaces).bind fun interfaces => ?_
  exact .pure rfl

theorem plainTypes_uniform (descriptor : MethodDescriptor) :
    Uniform ρ tries (MethodTypes.rename ρ) (plainTypes descriptor) (plainTypes descriptor) := by
  have hreturn : Uniform ρ tries (Shape.rename ρ) (plainReturn descriptor.returnType)
      (plainReturn descriptor.returnType) := by
    cases descriptor.returnType with
    | none => exact .pure (by rw [Shape.void, Shape.rename, Erased.rename])
    | some t => exact fieldShape_uniform t
  refine (Uniform.mapM fieldShape_uniform descriptor.parameters).bind fun parameters => ?_
  refine hreturn.bind fun returnType => ?_
  exact .pure rfl

theorem exceptionTypes_uniform (stub : MethodStub) (types : MethodTypes) :
    Uniform ρ tries (List.map (Shape.rename ρ)) (exceptionTypes stub types)
      (exceptionTypes stub (types.rename ρ)) := by
  unfold exceptionTypes
  cases hexceptions : types.exceptions with
  | nil =>
    simp only [MethodTypes.rename, hexceptions, List.map_nil]
    exact classNames_uniform Name.toBinary stub.exceptions
  | cons e es =>
    simp only [MethodTypes.rename, hexceptions, List.map_cons]
    exact .pure rfl

theorem rename_methodDeclWith (stub : MethodStub) (types : MethodTypes) (exceptions : List Shape) :
    (methodDeclWith stub types exceptions).rename ρ =
      methodDeclWith stub (types.rename ρ) (exceptions.map (Shape.rename ρ)) := by
  have hparameters := rename_parameterDecls (ρ := ρ) stub.parameters types.parameters
  rw [MethodDecl.rename, methodDeclWith, methodDeclWith]
  simp only [hparameters, MethodTypes.rename]

section Root

variable (hobject : ρ .object = .object)
include hobject

theorem header_uniform (stub : ClassStub) :
    Uniform ρ true (Header.rename ρ) (header sur stub) (header (sur.rename ρ) stub) := by
  refine (fromSignature_uniform (converted_uniform fun sig =>
    headerOf_uniform hobject stub.flags.isInterface sig) stub.name stub.signature).bind
      fun found => ?_
  exact orPlain_uniform (plainHeader_uniform stub) found

theorem fieldDecl_uniform (className : String) (stub : FieldStub) :
    Uniform ρ true (FieldDecl.rename ρ) (fieldDecl sur className stub)
      (fieldDecl (sur.rename ρ) className stub) := by
  unfold fieldDecl
  cases stub.type with
  | error invalid => exact .fail _
  | ok descriptor =>
    refine (fromSignature_uniform (converted_uniform fun t => shape_uniform hobject t) _
      stub.signature).bind fun found => ?_
    refine (orPlain_uniform (fieldShape_uniform descriptor) found).bind fun type => ?_
    exact .pure rfl

theorem methodDecl_uniform (className : String) (stub : MethodStub) :
    Uniform ρ true (MethodDecl.rename ρ) (methodDecl sur className stub)
      (methodDecl (sur.rename ρ) className stub) := by
  unfold methodDecl
  cases stub.type with
  | error invalid => exact .fail _
  | ok descriptor =>
    refine (fromSignature_uniform (converted_uniform fun sig =>
      methodTypesOf_uniform hobject descriptor sig) _ stub.signature).bind fun found => ?_
    refine (orPlain_uniform (plainTypes_uniform descriptor) found).bind fun types => ?_
    refine (exceptionTypes_uniform stub types).bind fun exceptions => ?_
    exact .pure (rename_methodDeclWith stub types exceptions).symm

theorem classBody_uniform (id : ClassId) (declaring : Option ClassId) (stub : ClassStub) :
    Uniform ρ true (ClassDecl.rename ρ) (classBody id declaring stub)
      (classBody (ρ id) (declaring.map ρ) stub) := by
  have henclosing : (if stub.flags.isStatic then none else declaring).map ρ =
      if stub.flags.isStatic then none else declaring.map ρ := by
    by_cases hstatic : stub.flags.isStatic = true <;> simp [hstatic]
  have hheader : Uniform ρ true (Header.rename ρ)
      (header { declaring := id, enclosing := if stub.flags.isStatic then none
        else declaring } stub)
      (header (Surroundings.rename ρ
        { declaring := id, enclosing := if stub.flags.isStatic then none else declaring }) stub) :=
    header_uniform hobject stub
  simp only [Surroundings.rename, henclosing] at hheader
  refine hheader.bind fun h => ?_
  refine (Uniform.mapM (fun f => fieldDecl_uniform hobject stub.name f) stub.fields).bind
    fun fields => ?_
  refine (Uniform.mapM (fun m => methodDecl_uniform hobject stub.name m) stub.methods).bind
    fun methods => ?_
  exact .pure rfl

theorem classDecl_uniform (id : ClassId) (stub : ClassStub) :
    Uniform ρ true (ClassDecl.rename ρ) (classDecl id stub) (classDecl (ρ id) stub) := by
  unfold classDecl
  cases stub.declaring with
  | none => exact classBody_uniform hobject id none stub
  | some name => exact .askClass fun declaring => classBody_uniform hobject id (some declaring) stub

end Root

end Script

end JvmTypes.Loader
