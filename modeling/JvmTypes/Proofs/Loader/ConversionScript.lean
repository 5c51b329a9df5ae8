import JvmTypes.Proofs.Loader.Script
/-!
# The conversions as scripts

Every conversion of the loader is the run of a script that follows it step by step.
-/
namespace JvmTypes.Loader

open Signature

theorem resolve?_eq_seenFrom {s : Store} {sur : Surroundings} {name : String}
    (hm : Erasures.get? sur.methodVariables name = none)
    (hc : Erasures.get? sur.classVariables name = none) :
    sur.resolve? s name = seenFrom s sur.enclosing name := by
  simp only [Surroundings.resolve?, hm, hc, seenFrom]
  cases sur.enclosing with
  | none => rfl
  | some outer =>
    simp only [Option.bind_some, Scope.ofClass_eq]
    apply Option.map_congr
    intro found hfound
    rw [TypeVariable.ofFound, Store.symbol_of_findVariable? hfound]

theorem types_of_parameterDecls (recorded : List ParameterStub) (types : List Shape) :
    (parameterDecls recorded types).map (·.type) = types := by
  unfold parameterDecls
  split
  · rename_i h
    rw [List.map_map]
    exact List.map_fst_zip (by omega)
  · rw [List.map_map]
    exact List.map_id types

namespace Script

def variableNamed (sur : Surroundings) (name : String) : Script TypeVariable :=
  match Erasures.get? sur.methodVariables name with
  | some e => pure ⟨name, .method, e⟩
  | none =>
    match Erasures.get? sur.classVariables name with
    | some e => pure ⟨name, .type sur.declaring, e⟩
    | none =>
      .askVariable name fun found =>
        match found with
        | some v => pure v
        | none => .fail (.undeclaredVariable name)

def classNamed (c : ClassTree) : Script ClassId := .askClass (Name.toBinary c.internalName) .done

mutual

def shape (sur : Surroundings) : TypeTree → Script Shape
  | .base b => pure (.plain (.primitive b))
  | .array c => do
    let c ← shape sur c
    pure (.arrayOf c)
  | .classType c => classShape sur c
  | .variable name => do
    let v ← variableNamed sur name
    pure (.variable v)

def classShape (sur : Surroundings) : ClassTree → Script Shape
  | .top package name as => do
    let raw ← classNamed (.top package name as)
    let as ← arguments sur as
    pure (applyTo none raw as)
  | .member outer name as => do
    let owner ← classShape sur outer
    let raw ← classNamed (.member outer name as)
    let as ← arguments sur as
    pure (applyTo (some owner) raw as)

def arguments (sur : Surroundings) : List Argument → Script (List Shape)
  | [] => pure []
  | a :: as => do
    let a ← argument sur a
    let as ← arguments sur as
    pure (a :: as)

def argument (sur : Surroundings) : Argument → Script Shape
  | .any => pure .unbounded
  | .exact t => shape sur t
  | .extends t => do
    let t ← shape sur t
    pure (.upper t)
  | .super t => do
    let t ← shape sur t
    pure (.lower t)

end

def parameterErasure (sur : Surroundings) (params : List TypeParameter) :
    Nat → List Nat → Nat → Script Erased
  | 0, _, _ => pure .object
  | steps + 1, visited, place =>
    match params[place]? with
    | none => pure .object
    | some p =>
      match p.bounds.head? with
      | none => pure .object
      | some (.variable name) =>
        match params.findIdx? (·.name = name) with
        | some next =>
          if place ∈ visited then .fail (.cyclicBound p.name)
          else parameterErasure sur params steps (place :: visited) next
        | none => do
          let v ← variableNamed sur name
          pure v.erasure
      | some (.classType c) => do
        let id ← classNamed c
        pure (.cls id)
      | some _ => .fail (.nonClassBound p.name)

def parameterErasures (sur : Surroundings) (params : List TypeParameter) : Script Erasures :=
  (List.range params.length).zip params |>.mapM fun (place, p) => do
    let e ← parameterErasure sur params (params.length + 2) [] place
    pure (p.name, e)

def typeVariable (sur : Surroundings) (p : TypeParameter) : Script TypeVarDecl :=
  match p.bounds with
  | [] => pure ⟨p.name, [.object]⟩
  | bounds => do
    let bounds ← bounds.mapM (shape sur)
    pure ⟨p.name, bounds⟩

def superclassOf (sur : Surroundings) (isInterface : Bool) (c : ClassTree) :
    Script (Option Shape) :=
  if isInterface then pure none else do
    let t ← classShape sur c
    pure (some t)

def headerOf (sur : Surroundings) (isInterface : Bool) (sig : ClassSignature) : Script Header := do
  let erasures ← parameterErasures sur sig.typeParameters
  let sur := { sur with classVariables := erasures }
  let typeVariables ← sig.typeParameters.mapM (typeVariable sur)
  let superclass ← superclassOf sur isInterface sig.superclass
  let interfaces ← sig.interfaces.mapM (classShape sur)
  pure ⟨typeVariables, superclass, interfaces, sur⟩

def returnShape (sur : Surroundings) : Option TypeTree → Script Shape
  | none => pure .void
  | some t => shape sur t

def methodTypesIn (sur : Surroundings) (sig : MethodSignature) : Script MethodTypes := do
  let typeVariables ← sig.typeParameters.mapM (typeVariable sur)
  let parameters ← sig.parameters.mapM (shape sur)
  let returnType ← returnShape sur sig.returnType
  let exceptions ← sig.throws.mapM (shape sur)
  pure ⟨typeVariables, parameters, returnType, exceptions⟩

def methodTypesOf (sur : Surroundings) (descriptor : MethodDescriptor) (sig : MethodSignature) :
    Script MethodTypes :=
  if sig.parameters.length ≠ descriptor.parameters.length then .fail .parameterCount
  else do
    let erasures ← parameterErasures sur sig.typeParameters
    methodTypesIn { sur with methodVariables := erasures } sig

def converted (parse : String → Except Signature.Invalid τ) (convert : τ → Script α)
    (text : String) : Script α :=
  match parse text with
  | .ok tree => convert tree
  | .error error => .fail (.unreadable error)

/-- What a signature says, if there is one that can be used. -/
def fromSignature (owner : String) (signature : Option String) (convert : String → Script α) :
    Script (Option α) :=
  match signature with
  | none => pure none
  | some text => .attempt owner (convert text) .done

/-- What the signature says, or else what the rest of the stub says. -/
def orPlain (found : Option α) (plain : Script α) : Script α :=
  match found with
  | some a => pure a
  | none => plain

def fieldShape : FieldType → Script Shape
  | .base b => pure (.plain (.primitive b))
  | .array c => do
    let c ← fieldShape c
    pure (.arrayOf c)
  | .object name => .askClass (Name.toBinary name) fun id => pure (.ofClass id)

def plainSuperclass (stub : ClassStub) : Script (Option Shape) :=
  match stub.superclass with
  | some name => if stub.flags.isInterface then pure none
      else .askClass name fun id => pure (some (.ofClass id))
  | none => pure none

def plainHeader (sur : Surroundings) (stub : ClassStub) : Script Header := do
  let superclass ← plainSuperclass stub
  let interfaces ← stub.interfaces.mapM fun name => .askClass name fun id => pure (Shape.ofClass id)
  pure ⟨[], superclass, interfaces, sur⟩

def header (sur : Surroundings) (stub : ClassStub) : Script Header := do
  let fromSignature ← fromSignature stub.name stub.signature
    (converted ClassSignature.parse (headerOf sur stub.flags.isInterface))
  orPlain fromSignature (plainHeader sur stub)

def fieldDecl (sur : Surroundings) (className : String) (stub : FieldStub) : Script FieldDecl :=
  let owner := className ++ "." ++ stub.name
  match stub.type with
  | .error invalid => .fail (.reference (.malformedDescriptor owner invalid))
  | .ok descriptor => do
    let fromSignature ← fromSignature owner stub.signature (converted TypeTree.parse (shape sur))
    let type ← orPlain fromSignature (fieldShape descriptor)
    pure ⟨stub.name, stub.flags, type, stub.annotations⟩

def plainReturn : Option FieldType → Script Shape
  | none => pure .void
  | some t => fieldShape t

def plainTypes (descriptor : MethodDescriptor) : Script MethodTypes := do
  let parameters ← descriptor.parameters.mapM fieldShape
  let returnType ← plainReturn descriptor.returnType
  pure ⟨[], parameters, returnType, []⟩

def exceptionTypes (stub : MethodStub) (types : MethodTypes) : Script (List Shape) :=
  match types.exceptions with
  | [] => stub.exceptions.mapM fun internal => .askClass (Name.toBinary internal) fun id =>
      pure (Shape.ofClass id)
  | exceptions => pure exceptions

def methodDeclWith (stub : MethodStub) (types : MethodTypes) (exceptions : List Shape) :
    MethodDecl where
  internalName := stub.name
  flags := stub.flags
  typeVariables := types.typeVariables
  returnType := types.returnType
  parameters := parameterDecls stub.parameters types.parameters
  exceptions := exceptions
  annotations := stub.annotations
  defaultValue := stub.defaultValue

def methodDecl (sur : Surroundings) (className : String) (stub : MethodStub) : Script MethodDecl :=
  let owner := className ++ "." ++ stub.name ++ stub.descriptor
  match stub.type with
  | .error invalid => .fail (.reference (.malformedDescriptor owner invalid))
  | .ok descriptor => do
    let fromSignature ← fromSignature owner stub.signature
      (converted MethodSignature.parse (methodTypesOf sur descriptor))
    let types ← orPlain fromSignature (plainTypes descriptor)
    let exceptions ← exceptionTypes stub types
    pure (methodDeclWith stub types exceptions)

/-- The declaration of a class whose enclosing class is known. -/
def classBody (id : ClassId) (declaring : Option ClassId) (stub : ClassStub) :
    Script ClassDecl := do
  let enclosing := if stub.flags.isStatic then none else declaring
  let header ← header { declaring := id, enclosing := enclosing } stub
  let fields ← stub.fields.mapM (fieldDecl header.surroundings stub.name)
  let methods ← stub.methods.mapM (methodDecl header.surroundings stub.name)
  pure {
    name := stub.name
    flags := stub.flags
    typeVariables := header.typeVariables
    superclass := header.superclass
    interfaces := header.interfaces
    declaring := declaring
    annotations := stub.annotations
    fields := fields
    methods := methods }

def classDecl (id : ClassId) (stub : ClassStub) : Script ClassDecl :=
  match stub.declaring with
  | none => classBody id none stub
  | some name => .askClass name fun declaring => classBody id (some declaring) stub

section Ends

variable {A : Answers} {sur : Surroundings}

theorem ends_converted {parse : String → Except Signature.Invalid τ} {script : τ → Script α}
    {text : String} {a : α} (h : (converted parse script text).Ends A (some a)) :
    ∃ tree, parse text = .ok tree ∧ (script tree).Ends A (some a) := by
  unfold converted at h
  cases hp : parse text with
  | ok tree => exact ⟨tree, rfl, by simpa [hp] using h⟩
  | error error => simp [hp] at h

theorem ends_fromSignature {parse : String → Except Signature.Invalid τ} {script : τ → Script α}
    {owner : String} {signature : Option String} {a : α}
    (h : (fromSignature owner signature (converted parse script)).Ends A (some (some a))) :
    ∃ text tree, signature = some text ∧ parse text = .ok tree ∧ (script tree).Ends A (some a) := by
  cases signature with
  | none => simp [fromSignature] at h
  | some text =>
    obtain ⟨b, hb, hr⟩ | ⟨_, hr⟩ := h
    · obtain rfl : some a = b := by simpa using hr
      obtain ⟨tree, hparse, hend⟩ := ends_converted hb
      exact ⟨text, tree, rfl, hparse, hend⟩
    · simp at hr

theorem ends_orPlain {found : Option α} {plain : Script α} {a : α}
    (h : (orPlain found plain).Ends A (some a)) :
    found = some a ∨ plain.Ends A (some a) := by
  cases found with
  | some b =>
    obtain rfl := Option.some.inj h
    exact Or.inl rfl
  | none => exact Or.inr h

theorem ends_header {stub : ClassStub} {h : Header} (hh : (header sur stub).Ends A (some h)) :
    (∃ text sig, stub.signature = some text ∧ ClassSignature.parse text = .ok sig ∧
      (headerOf sur stub.flags.isInterface sig).Ends A (some h)) ∨
      (plainHeader sur stub).Ends A (some h) := by
  obtain ⟨found, hfound, hh⟩ := ends_bind_some.mp hh
  rcases ends_orPlain hh with rfl | hh
  · exact Or.inl (ends_fromSignature hfound)
  · exact Or.inr hh

theorem ends_headerOf {isInterface : Bool} {sig : ClassSignature} {h : Header}
    (hh : (headerOf sur isInterface sig).Ends A (some h)) :
    ∃ es, (parameterErasures sur sig.typeParameters).Ends A (some es) ∧
      h.surroundings = { sur with classVariables := es } ∧
      List.Forall₂ (fun p v => (typeVariable h.surroundings p).Ends A (some v))
        sig.typeParameters h.typeVariables ∧
      (∀ t ∈ h.superclass, (classShape h.surroundings sig.superclass).Ends A (some t)) ∧
      List.Forall₂ (fun c t => (classShape h.surroundings c).Ends A (some t))
        sig.interfaces h.interfaces := by
  simp only [headerOf, ends_bind_some, ends_mapM_some, ends_pure, Option.some.injEq] at hh
  obtain ⟨es, hes, vs, hvs, sc, hsc, is, his, rfl⟩ := hh
  refine ⟨es, hes, rfl, hvs, ?_, his⟩
  intro t ht
  cases isInterface with
  | true =>
    obtain rfl : sc = none := by simpa [superclassOf] using hsc
    simp at ht
  | false =>
    obtain ⟨t', hend, hsc⟩ : ∃ t',
        (classShape { sur with classVariables := es } sig.superclass).Ends A (some t') ∧
        sc = some t' := by
      simpa only [superclassOf, Bool.false_eq_true, if_false, ends_bind_some, ends_pure,
        Option.some.injEq] using hsc
    obtain rfl : t' = t := by simpa [hsc] using ht
    exact hend

theorem ends_fieldShape {t : FieldType} {s : Shape} (h : (fieldShape t).Ends A (some s)) :
    ∃ e, s = .plain e := by
  induction t generalizing s with
  | base b => exact ⟨_, Option.some.inj h⟩
  | array c ih =>
    obtain ⟨c', hc, hs⟩ := ends_bind_some.mp h
    obtain ⟨e, rfl⟩ := ih hc
    exact ⟨.array e, Option.some.inj hs⟩
  | object name =>
    rcases h with ⟨id, _, hs⟩ | ⟨_, hs⟩
    · exact ⟨.cls id, Option.some.inj hs⟩
    · simp at hs

theorem ends_plainClasses {names : List String} {toName : String → String} {ts : List Shape}
    (h : (names.mapM fun n => askClass (toName n) fun id => pure (Shape.ofClass id)).Ends A
        (some ts)) :
    ∀ t ∈ ts, ∃ e, t = .plain e := by
  intro t ht
  obtain ⟨n, _, hn⟩ := ends_mapM_mem h t ht
  rcases hn with ⟨id, _, hs⟩ | ⟨_, hs⟩
  · exact ⟨.cls id, Option.some.inj hs⟩
  · simp at hs

theorem ends_plainHeader {stub : ClassStub} {h : Header}
    (hh : (plainHeader sur stub).Ends A (some h)) :
    h.surroundings = sur ∧ h.typeVariables = [] ∧
      ∀ t ∈ h.superclass.toList ++ h.interfaces, ∃ e, t = .plain e := by
  simp only [plainHeader, ends_bind_some, ends_pure, Option.some.injEq] at hh
  obtain ⟨sc, hsc, is, his, rfl⟩ := hh
  refine ⟨rfl, rfl, ?_⟩
  intro t ht
  rcases List.mem_append.mp ht with ht | ht
  · obtain rfl : sc = some t := by simpa using ht
    unfold plainSuperclass at hsc
    split at hsc
    · split at hsc
      · simp at hsc
      · rcases hsc with ⟨id, _, hs⟩ | ⟨_, hs⟩
        · exact ⟨.cls id, Option.some.inj (Option.some.inj hs)⟩
        · simp at hs
    · simp at hsc
  · exact ends_plainClasses his t ht

/-- The members of a class see the classes around it, whatever its header says. -/
theorem enclosing_of_header {stub : ClassStub} {h : Header}
    (hh : (header sur stub).Ends A (some h)) :
    h.surroundings.enclosing = sur.enclosing := by
  rcases ends_header hh with ⟨_, _, _, _, hh⟩ | hh
  · obtain ⟨es, _, hsur, _⟩ := ends_headerOf hh
    rw [hsur]
  · rw [(ends_plainHeader hh).1]

theorem ends_classBody {id : ClassId} {declaring : Option ClassId} {stub : ClassStub}
    {decl : ClassDecl} (h : (classBody id declaring stub).Ends A (some decl)) :
    ∃ hd, (header { declaring := id, enclosing := if stub.flags.isStatic then none else declaring }
        stub).Ends A (some hd) ∧
      List.Forall₂ (fun f d => (fieldDecl hd.surroundings stub.name f).Ends A (some d))
        stub.fields decl.fields ∧
      List.Forall₂ (fun m d => (methodDecl hd.surroundings stub.name m).Ends A (some d))
        stub.methods decl.methods ∧
      decl.name = stub.name ∧ decl.flags = stub.flags ∧ decl.declaring = declaring ∧
      decl.isPlaceholder = false ∧
      decl.annotations = stub.annotations ∧ decl.typeVariables = hd.typeVariables ∧
      decl.superclass = hd.superclass ∧ decl.interfaces = hd.interfaces := by
  simp only [classBody, ends_bind_some, ends_mapM_some, ends_pure, Option.some.injEq] at h
  obtain ⟨hd, hhd, fs, hfs, ms, hms, rfl⟩ := h
  exact ⟨hd, hhd, hfs, hms, rfl, rfl, rfl, rfl, rfl, rfl, rfl, rfl⟩

theorem ends_classDecl {id : ClassId} {stub : ClassStub} {decl : ClassDecl}
    (h : (classDecl id stub).Ends A (some decl)) :
    ∃ declaring, ((stub.declaring = none ∧ declaring = none) ∨
        ∃ name d, stub.declaring = some name ∧ declaring = some d ∧ A.cls name d) ∧
      (classBody id declaring stub).Ends A (some decl) := by
  unfold classDecl at h
  split at h
  · rename_i hn
    exact ⟨none, Or.inl ⟨hn, rfl⟩, h⟩
  · rename_i name hn
    rcases h with ⟨d, hcls, h⟩ | ⟨_, h⟩
    · exact ⟨some d, Or.inr ⟨name, d, hn, rfl, hcls⟩, h⟩
    · simp at h

theorem ends_fieldDecl {className : String} {stub : FieldStub} {d : FieldDecl}
    (h : (fieldDecl sur className stub).Ends A (some d)) :
    (∃ text tree, stub.signature = some text ∧ TypeTree.parse text = .ok tree ∧
      (shape sur tree).Ends A (some d.type)) ∨
      ∃ descriptor, stub.type = .ok descriptor ∧ (fieldShape descriptor).Ends A (some d.type) := by
  unfold fieldDecl at h
  cases ht : stub.type with
  | error invalid => simp [ht] at h
  | ok descriptor =>
    simp only [ht, ends_bind_some, ends_pure, Option.some.injEq] at h
    obtain ⟨found, hfound, type, htype, rfl⟩ := h
    rcases ends_orPlain htype with rfl | hplain
    · exact Or.inl (ends_fromSignature hfound)
    · exact Or.inr ⟨descriptor, rfl, hplain⟩

theorem ends_plainTypes {descriptor : MethodDescriptor} {types : MethodTypes}
    (h : (plainTypes descriptor).Ends A (some types)) :
    types.typeVariables = [] ∧ types.exceptions = [] ∧
      ∀ t ∈ types.returnType :: types.parameters, ∃ e, t = .plain e := by
  simp only [plainTypes, ends_bind_some, ends_pure, Option.some.injEq] at h
  obtain ⟨ps, hps, r, hr, rfl⟩ := h
  refine ⟨rfl, rfl, ?_⟩
  intro t ht
  rcases List.mem_cons.mp ht with rfl | ht
  · cases hd : descriptor.returnType with
    | none =>
      rw [hd] at hr
      exact ⟨.void, Option.some.inj hr⟩
    | some f =>
      rw [hd] at hr
      exact ends_fieldShape hr
  · obtain ⟨f, _, hf⟩ := ends_mapM_mem hps t ht
    exact ends_fieldShape hf

theorem ends_methodTypesOf {descriptor : MethodDescriptor} {sig : MethodSignature}
    {types : MethodTypes} (h : (methodTypesOf sur descriptor sig).Ends A (some types)) :
    sig.parameters.length = descriptor.parameters.length ∧
    ∃ es, (parameterErasures sur sig.typeParameters).Ends A (some es) ∧
      (methodTypesIn { sur with methodVariables := es } sig).Ends A (some types) := by
  unfold methodTypesOf at h
  split at h
  case isTrue => simp at h
  case isFalse hcount => exact ⟨not_ne_iff.mp hcount, ends_bind_some.mp h⟩

theorem ends_methodTypesIn {sig : MethodSignature} {types : MethodTypes} :
    (methodTypesIn sur sig).Ends A (some types) ↔
      List.Forall₂ (fun p v => (typeVariable sur p).Ends A (some v)) sig.typeParameters
        types.typeVariables ∧
      List.Forall₂ (fun t u => (shape sur t).Ends A (some u)) sig.parameters types.parameters ∧
      (returnShape sur sig.returnType).Ends A (some types.returnType) ∧
      List.Forall₂ (fun t u => (shape sur t).Ends A (some u)) sig.throws types.exceptions := by
  simp only [methodTypesIn, ends_bind_some, ends_mapM_some, ends_pure, Option.some.injEq]
  constructor
  · rintro ⟨vs, hvs, ps, hps, r, hr, es, hes, rfl⟩
    exact ⟨hvs, hps, hr, hes⟩
  · rintro ⟨hvs, hps, hr, hes⟩
    exact ⟨_, hvs, _, hps, _, hr, _, hes, rfl⟩

theorem tree_of_methodTypesIn {sig : MethodSignature} {types : MethodTypes}
    (h : (methodTypesIn sur sig).Ends A (some types)) :
    ∀ t ∈ types.returnType :: (types.parameters ++ types.exceptions),
      t = .void ∨ ∃ tree, (shape sur tree).Ends A (some t) := by
  obtain ⟨_, hps, hr, hes⟩ := ends_methodTypesIn.mp h
  intro t ht
  rcases List.mem_cons.mp ht with rfl | ht
  · cases hs : sig.returnType with
    | none =>
      rw [hs] at hr
      exact Or.inl (Option.some.inj hr)
    | some tree =>
      rw [hs] at hr
      exact Or.inr ⟨tree, hr⟩
  · rcases List.mem_append.mp ht with ht | ht
    · obtain ⟨tree, _, h⟩ := exists_of_mem_right hps ht
      exact Or.inr ⟨tree, h⟩
    · obtain ⟨tree, _, h⟩ := exists_of_mem_right hes ht
      exact Or.inr ⟨tree, h⟩

theorem ends_exceptionTypes {stub : MethodStub} {types : MethodTypes} {ts : List Shape}
    (h : (exceptionTypes stub types).Ends A (some ts)) :
    (types.exceptions = [] ∧ ∀ t ∈ ts, ∃ e, t = .plain e) ∨ ts = types.exceptions := by
  unfold exceptionTypes at h
  split at h
  case h_1 hnone => exact Or.inl ⟨hnone, ends_plainClasses h⟩
  case h_2 => exact Or.inr (Option.some.inj h)

theorem ends_methodDecl {className : String} {stub : MethodStub} {d : MethodDecl}
    (h : (methodDecl sur className stub).Ends A (some d)) :
    ∃ descriptor types exceptions, stub.type = .ok descriptor ∧
      d = methodDeclWith stub types exceptions ∧
      (exceptionTypes stub types).Ends A (some exceptions) ∧
      ((∃ text sig, stub.signature = some text ∧ MethodSignature.parse text = .ok sig ∧
          (methodTypesOf sur descriptor sig).Ends A (some types)) ∨
        (plainTypes descriptor).Ends A (some types)) := by
  unfold methodDecl at h
  cases ht : stub.type with
  | error invalid => simp [ht] at h
  | ok descriptor =>
    simp only [ht, ends_bind_some, ends_pure, Option.some.injEq] at h
    obtain ⟨found, hfound, types, htypes, exceptions, hexceptions, rfl⟩ := h
    refine ⟨descriptor, types, exceptions, rfl, rfl, hexceptions, ?_⟩
    rcases ends_orPlain htypes with rfl | hplain
    · obtain ⟨text, sig, htext, hparse, hend⟩ := ends_fromSignature hfound
      exact Or.inl ⟨text, sig, htext, hparse, hend⟩
    · exact Or.inr hplain

end Ends

section Runs

variable (resolve : Resolver) (config : Config)

theorem run_variableNamed (sur : Surroundings) (name : String) :
    resolveVariable sur name = (variableNamed sur name).run resolve config sur.enclosing := by
  cases hm : Erasures.get? sur.methodVariables name with
  | some e =>
    simp only [resolveVariable, Surroundings.resolve?, variableNamed, hm]
    rfl
  | none =>
    cases hc : Erasures.get? sur.classVariables name with
    | some e =>
      simp only [resolveVariable, Surroundings.resolve?, variableNamed, hm, hc]
      rfl
    | none =>
      simp only [resolveVariable, variableNamed, hm, hc, run, resolve?_eq_seenFrom hm hc]
      congr 1
      funext s
      cases seenFrom s sur.enclosing name <;> rfl

theorem run_classNamed (enclosing : Option ClassId) (c : ClassTree) :
    Loader.classNamed resolve c = (classNamed c).run resolve config enclosing := by
  simp only [Loader.classNamed, classNamed, run, bind_pure]

variable (sur : Surroundings)

mutual

theorem run_shape :
    (t : TypeTree) → shapeOf resolve sur t = (shape sur t).run resolve config sur.enclosing
  | .base b => by
    rw [shapeOf, shape]
    rfl
  | .array c => by
    rw [shapeOf, shape, run_bind, run_shape c]
    rfl
  | .classType c => by rw [shapeOf, shape, run_classShape c]
  | .variable name => by
    rw [shapeOf, shape, run_bind, run_variableNamed resolve config]
    rfl

theorem run_classShape : (c : ClassTree) →
    shapeOfClass resolve sur c = (classShape sur c).run resolve config sur.enclosing
  | .top package name as => by
    rw [shapeOfClass, classShape, run_bind, run_classNamed resolve config sur.enclosing,
      run_arguments as]
    simp only [run_bind]
    rfl
  | .member outer name as => by
    rw [shapeOfClass, classShape, run_bind, run_classNamed resolve config sur.enclosing,
      run_arguments as, run_classShape outer]
    simp only [run_bind]
    rfl

theorem run_arguments : (as : List Argument) →
    shapesOf resolve sur as = (arguments sur as).run resolve config sur.enclosing
  | [] => by
    rw [shapesOf, arguments]
    rfl
  | a :: as => by
    rw [shapesOf, arguments, run_bind, run_argument a, run_arguments as]
    simp only [run_bind]
    rfl

theorem run_argument : (a : Argument) →
    shapeOfArgument resolve sur a = (argument sur a).run resolve config sur.enclosing
  | .any => by
    rw [shapeOfArgument, argument]
    rfl
  | .exact t => by rw [shapeOfArgument, argument, run_shape t]
  | .extends t => by
    rw [shapeOfArgument, argument, run_bind, run_shape t]
    rfl
  | .super t => by
    rw [shapeOfArgument, argument, run_bind, run_shape t]
    rfl

end

theorem run_parameterErasure (params : List TypeParameter) (steps : Nat) (visited : List Nat)
    (place : Nat) :
    Loader.parameterErasure resolve sur params steps visited place =
      (parameterErasure sur params steps visited place).run resolve config sur.enclosing := by
  induction steps generalizing visited place with
  | zero =>
    rw [Loader.parameterErasure, parameterErasure]
    rfl
  | succ steps ih =>
    rw [Loader.parameterErasure, parameterErasure]
    cases params[place]? with
    | none => rfl
    | some p =>
      rcases hb : p.bounds.head? with _ | ⟨b | c | name | c⟩
      · simp only [hb]
        rfl
      · simp only [hb]
        rfl
      · simp only [hb, run_bind, run_classNamed resolve config sur.enclosing]
        rfl
      · simp only [hb]
        cases params.findIdx? (·.name = name) with
        | none =>
          simp only [run_bind, run_variableNamed resolve config]
          rfl
        | some next =>
          by_cases hv : place ∈ visited
          · simp only [hv, if_true]
            rfl
          · simp only [hv, if_false]
            exact ih (place :: visited) next
      · simp only [hb]
        rfl

theorem run_parameterErasures (params : List TypeParameter) :
    Loader.parameterErasures resolve sur params =
      (parameterErasures sur params).run resolve config sur.enclosing := by
  rw [Loader.parameterErasures, parameterErasures, run_mapM]
  congr 1
  funext ⟨place, p⟩
  simp only [run_bind, run_parameterErasure resolve config]
  rfl

theorem run_typeVariable (p : TypeParameter) :
    Loader.typeVariable resolve sur p = (typeVariable sur p).run resolve config sur.enclosing := by
  have hshape : shapeOf resolve sur = fun t => (shape sur t).run resolve config sur.enclosing :=
    funext (run_shape resolve config sur)
  cases hb : p.bounds with
  | nil =>
    simp only [Loader.typeVariable, typeVariable, hb]
    rfl
  | cons t ts =>
    simp only [Loader.typeVariable, typeVariable, hb, hshape, run_bind, run_mapM]
    rfl

theorem run_headerOf (isInterface : Bool) (sig : ClassSignature) :
    Loader.headerOf resolve sur isInterface sig =
      (headerOf sur isInterface sig).run resolve config sur.enclosing := by
  have hvariable : ∀ es, Loader.typeVariable resolve { sur with classVariables := es } =
      fun p => (typeVariable { sur with classVariables := es } p).run resolve config
        sur.enclosing :=
    fun es => funext (run_typeVariable resolve config { sur with classVariables := es })
  have hclass : ∀ es, shapeOfClass resolve { sur with classVariables := es } =
      fun c => (classShape { sur with classVariables := es } c).run resolve config sur.enclosing :=
    fun es => funext (run_classShape resolve config { sur with classVariables := es })
  cases isInterface <;>
    simp only [Loader.headerOf, headerOf, run_bind, run_mapM, run_parameterErasures resolve config,
      hvariable, hclass, superclassOf, if_true, if_false, Bool.false_eq_true,
      map_eq_pure_bind] <;>
    rfl

theorem run_methodTypesIn (sig : MethodSignature) :
    (do
      let typeVariables ← sig.typeParameters.mapM (Loader.typeVariable resolve sur)
      let parameters ← sig.parameters.mapM (shapeOf resolve sur)
      let returnType ←
        match sig.returnType with
        | none => pure .void
        | some t => shapeOf resolve sur t
      let exceptions ← sig.throws.mapM (shapeOf resolve sur)
      pure ⟨typeVariables, parameters, returnType, exceptions⟩) =
      (methodTypesIn sur sig).run resolve config sur.enclosing := by
  have hvariable : Loader.typeVariable resolve sur = fun p =>
      (typeVariable sur p).run resolve config sur.enclosing :=
    funext (run_typeVariable resolve config sur)
  have hshape : shapeOf resolve sur = fun t => (shape sur t).run resolve config sur.enclosing :=
    funext (run_shape resolve config sur)
  cases hr : sig.returnType with
  | none =>
    simp only [methodTypesIn, returnShape, run_bind, run_mapM, hvariable, hshape, hr]
    rfl
  | some t =>
    simp only [methodTypesIn, returnShape, run_bind, run_mapM, hvariable, hshape, hr]
    rfl

theorem run_methodTypesOf (descriptor : MethodDescriptor) (sig : MethodSignature) :
    Loader.methodTypesOf resolve sur descriptor sig =
      (methodTypesOf sur descriptor sig).run resolve config sur.enclosing := by
  by_cases h : sig.parameters.length ≠ descriptor.parameters.length
  · rw [Loader.methodTypesOf, methodTypesOf, if_pos h, if_pos h]
    rfl
  · rw [Loader.methodTypesOf, methodTypesOf, if_neg h, if_neg h, run_bind,
      run_parameterErasures resolve config]
    apply bind_congr
    intro erasures
    exact run_methodTypesIn resolve config { sur with methodVariables := erasures } sig

theorem run_converted (parse : String → Except Signature.Invalid τ)
    {convert : τ → Load SignatureFault α} {script : τ → Script α} {enclosing : Option ClassId}
    (h : ∀ tree, convert tree = (script tree).run resolve config enclosing) (text : String) :
    Loader.converted parse convert text =
      (converted parse script text).run resolve config enclosing := by
  unfold Loader.converted converted
  cases parse text with
  | ok tree => exact h tree
  | error error => rfl

theorem run_fieldShape (enclosing : Option ClassId) (t : FieldType) :
    wrapped (shapeOfField resolve t) = (fieldShape t).run resolve config enclosing := by
  induction t with
  | base b =>
    rw [shapeOfField, fieldShape]
    rfl
  | array c ih =>
    rw [shapeOfField, fieldShape, wrapped_bind, run_bind, ih]
    rfl
  | object name =>
    rw [shapeOfField, fieldShape, wrapped_bind]
    simp only [wrapped_resolve, wrapped_pure, run, run_pure]

theorem run_plainHeader (stub : ClassStub) (enclosing : Option ClassId) :
    wrapped (Loader.plainHeader resolve sur stub) =
      (plainHeader sur stub).run resolve config enclosing := by
  cases hs : stub.superclass with
  | none =>
    simp only [Loader.plainHeader, plainHeader, plainSuperclass, hs, wrapped_bind, wrapped_mapM,
      wrapped_resolve, wrapped_pure, run, run_bind, run_mapM, run_pure]
  | some name =>
    cases hi : stub.flags.isInterface <;>
      simp only [Loader.plainHeader, plainHeader, plainSuperclass, hs, hi, if_true, if_false,
        Bool.false_eq_true, wrapped_bind, wrapped_mapM, wrapped_resolve, wrapped_pure, run,
        run_bind, run_mapM, run_pure, bind_assoc, pure_bind]

theorem run_header (stub : ClassStub) :
    wrapped (Loader.header config resolve sur stub) =
      (header sur stub).run resolve config sur.enclosing := by
  cases hs : stub.signature with
  | none =>
    simp only [Loader.header, header, fromSignature, orPlain, hs, pure_bind]
    exact run_plainHeader resolve config sur stub sur.enclosing
  | some text =>
    have hconvert := run_converted resolve config ClassSignature.parse
      (run_headerOf resolve config sur stub.flags.isInterface) text
    simp only [Loader.header, header, fromSignature, orPlain, hs, wrapped_bind, run_bind, run,
      hconvert, bind_assoc]
    apply bind_congr
    intro found
    cases found with
    | some header => rfl
    | none => exact run_plainHeader resolve config sur stub sur.enclosing

theorem run_fieldDecl (className : String) (stub : FieldStub) :
    wrapped (Loader.fieldDecl config resolve sur className stub) =
      (fieldDecl sur className stub).run resolve config sur.enclosing := by
  cases ht : stub.type with
  | error invalid =>
    simp only [Loader.fieldDecl, fieldDecl, ht]
    rfl
  | ok descriptor =>
    cases hs : stub.signature with
    | none =>
      simp only [Loader.fieldDecl, fieldDecl, fromSignature, orPlain, ht, hs, pure_bind,
        wrapped_bind, run_bind, run_fieldShape resolve config sur.enclosing]
      rfl
    | some text =>
      have hconvert :=
        run_converted resolve config TypeTree.parse (run_shape resolve config sur) text
      simp only [Loader.fieldDecl, fieldDecl, fromSignature, orPlain, ht, hs, wrapped_bind,
        run_bind, run, hconvert, bind_assoc]
      apply bind_congr
      intro found
      cases found with
      | some type => rfl
      | none =>
        simp only [pure_bind, wrapped_bind, run_fieldShape resolve config sur.enclosing]
        rfl

theorem run_plainTypes (descriptor : MethodDescriptor) (enclosing : Option ClassId) :
    wrapped (Loader.plainTypes resolve descriptor) =
      (plainTypes descriptor).run resolve config enclosing := by
  cases hr : descriptor.returnType with
  | none =>
    simp only [Loader.plainTypes, plainTypes, plainReturn, hr, wrapped_bind, wrapped_mapM,
      wrapped_pure, run_bind, run_mapM, run_pure, run_fieldShape resolve config enclosing]
  | some t =>
    simp only [Loader.plainTypes, plainTypes, plainReturn, hr, wrapped_bind, wrapped_mapM,
      wrapped_pure, run_bind, run_mapM, run_pure, run_fieldShape resolve config enclosing]

theorem run_exceptionTypes (stub : MethodStub) (types : MethodTypes) (enclosing : Option ClassId) :
    wrapped (match types.exceptions with
      | [] => stub.exceptions.mapM fun internal => do
        let id ← resolve (Name.toBinary internal)
        pure (Shape.ofClass id)
      | exceptions => pure exceptions) =
      (exceptionTypes stub types).run resolve config enclosing := by
  cases he : types.exceptions with
  | nil =>
    simp only [exceptionTypes, he, wrapped_mapM, wrapped_bind, wrapped_resolve, wrapped_pure,
      run_mapM, run, run_pure]
  | cons e es =>
    simp only [exceptionTypes, he]
    rfl

theorem run_methodDeclWith (stub : MethodStub) (types : MethodTypes) :
    wrapped (do
      let exceptions ←
        match types.exceptions with
        | [] => stub.exceptions.mapM fun internal => do
          let id ← resolve (Name.toBinary internal)
          pure (Shape.ofClass id)
        | exceptions => pure exceptions
      pure (methodDeclWith stub types exceptions)) =
      (do
        let exceptions ← exceptionTypes stub types
        pure (methodDeclWith stub types exceptions) : Script MethodDecl).run
          resolve config sur.enclosing := by
  have h := run_exceptionTypes resolve config stub types sur.enclosing
  cases he : types.exceptions with
  | nil =>
    simp only [he] at h
    simp only [run_bind, ← h, wrapped_bind]
    rfl
  | cons e es =>
    simp only [he] at h
    simp only [run_bind, ← h]
    rfl

theorem run_methodDecl (className : String) (stub : MethodStub) :
    wrapped (Loader.methodDecl config resolve sur className stub) =
      (methodDecl sur className stub).run resolve config sur.enclosing := by
  have hrest := run_methodDeclWith resolve config sur stub
  cases ht : stub.type with
  | error invalid =>
    simp only [Loader.methodDecl, methodDecl, ht]
    rfl
  | ok descriptor =>
    cases hs : stub.signature with
    | none =>
      simp only [Loader.methodDecl, methodDecl, fromSignature, orPlain, ht, hs, pure_bind,
        wrapped_bind, run_bind, run_plainTypes resolve config descriptor sur.enclosing]
      apply bind_congr
      intro types
      exact (hrest types).trans (run_bind resolve config sur.enclosing _ _)
    | some text =>
      have hconvert := run_converted resolve config MethodSignature.parse
        (run_methodTypesOf resolve config sur descriptor) text
      simp only [Loader.methodDecl, methodDecl, fromSignature, orPlain, ht, hs, wrapped_bind,
        run_bind, run, hconvert, bind_assoc]
      apply bind_congr
      intro found
      cases found with
      | some types =>
        refine (hrest types).trans ?_
        simp only [run_bind, run_pure, pure_bind]
      | none =>
        simp only [pure_bind, wrapped_bind, run_plainTypes resolve config descriptor sur.enclosing]
        apply bind_congr
        intro types
        exact (hrest types).trans (run_bind resolve config sur.enclosing _ _)

theorem run_classDecl (id : ClassId) (stub : ClassStub) :
    wrapped (Loader.classDecl config resolve id stub) = (do
      let declaring ← stub.declaring.mapM (referenced resolve)
      (classBody id declaring stub).run resolve config (if stub.flags.isStatic then none
        else declaring)) := by
  have hdeclaring : wrapped (stub.declaring.mapM resolve) =
      stub.declaring.mapM (referenced resolve) := by
    cases stub.declaring with
    | none => rfl
    | some name =>
      simp only [Option.mapM_some, map_eq_pure_bind, wrapped_bind, wrapped_resolve]
      rfl
  rw [Loader.classDecl, wrapped_bind, hdeclaring]
  apply bind_congr
  intro declaring
  rw [classBody, run_bind, wrapped_bind, run_header]
  apply Frame.bind_congr_of_ok
  intro h st hok
  have henclosing := enclosing_of_header (ends_of_run hok)
  simp only [wrapped_bind, wrapped_mapM, wrapped_pure, run_bind, run_mapM, run_pure,
    run_fieldDecl resolve config, run_methodDecl resolve config, henclosing]

end Runs

end Script

end JvmTypes.Loader
