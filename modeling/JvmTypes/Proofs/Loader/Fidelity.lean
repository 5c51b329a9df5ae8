import JvmTypes.Proofs.Loader.Rereading
import JvmTypes.Proofs.Loader.Verbatim
import JvmTypes.Proofs.Loader.WholeLoads
/-!
# The texts of canonical signatures

A class that is loaded with all its signatures writes them as the stub has them, if they are
canonical and no type variable extends another one that erases to an interface.
-/
namespace JvmTypes

namespace Loader

open Signature

section Declared

variable {s : Store} {stub : ClassStub} {id : ClassId}
  (hobject : s.lookup? "java.lang.Object" = some .object) (h : DeclaredWhole s stub id)
include hobject h

theorem headerText_of_canonical {sig : ClassSignature} (htext : stub.signature = some sig.text)
    (hsig : sig.IsCanonical s stub.flags.isInterface) :
    (s.get id).signatureText? s = some sig.text ↔
      ∀ v ∈ (s.get id).typeVariables, ¬ v.extendsInterfaceVariable s := by
  obtain ⟨read, hd, hparse, hend, hvars, hsuper, hinterfaces⟩ := h.header htext
  rw [ClassSignature.parse_text hsig.wellFormed hsig.bounded] at hparse
  obtain rfl := Except.ok.inj hparse
  exact classText_of_canonical hobject { declaring := id, enclosing := (s.get id).enclosing } hsig
    hend hvars hsuper hinterfaces

theorem methodTexts_of_canonical :
    List.Forall₂ (fun m d => ∀ sig : MethodSignature, m.signature = some sig.text →
      sig.IsCanonical s → ((Method.ofDecl id d).signatureText? s = some sig.text ↔
        ∀ v ∈ d.typeVariables, ¬ v.extendsInterfaceVariable s))
      stub.methods (s.get id).methods := by
  refine h.methods.imp fun m d hmethod sig htext hsig => ?_
  obtain ⟨descriptor, read, types, exceptions, hparse, hend, hexceptions, rfl⟩ := hmethod _ htext
  rw [MethodSignature.parse_text hsig.wellFormed hsig.bounded] at hparse
  obtain rfl := Except.ok.inj hparse
  obtain ⟨_, es, _, htypes⟩ := Script.ends_methodTypesOf hend
  have hthrown : (types.exceptions = [] ∧ ¬ exceptions.any Shape.isGeneric) ∨
      exceptions = types.exceptions :=
    (Script.ends_exceptionTypes hexceptions).imp
      (fun hplain => ⟨hplain.1, not_any_isGeneric hplain.2⟩) fun heq => heq
  have hiff := methodText_of_canonical hobject
    { surroundings s id with methodVariables := es }
    (m := .ofDecl id (Script.methodDeclWith m types exceptions)) hsig htypes
    (Method.typeVariables_ofDecl id _) (types_of_parameterDecls _ _) rfl
    (by rwa [Method.exceptions_ofDecl])
  rwa [Method.typeVariables_ofDecl] at hiff

end Declared

theorem declaredWhole_after {calls later : List Call} {call : Call} {source : Source}
    {config : Config} {name : String}
    (hcall : call = .load source config name ∨ call = .ensure source config name)
    (hcalls : ∀ c ∈ calls ++ call :: later, c.Faithful) {n : String} {stub : ClassStub}
    (hwhole : LoadsWhole source config n stub (config.maxDepth - 1) name (after calls)) :
    let s := (after (calls ++ call :: later)).store
    ∃ id, s.lookup? n = some id ∧ (s.get id).isPlaceholder = false ∧ DeclaredWhole s stub id := by
  intro s
  have hcalled : ∀ source config, (steady source config).Holds [] (after calls) :=
    steady_after fun c hc => hcalls c (List.mem_append_left _ hc)
  have hfaithful : call.Faithful := hcalls call (by simp)
  have hsource : Faithful source := by
    rcases hcall with rfl | rfl
    · exact Call.faithful_load.mp hfaithful
    · exact Call.faithful_ensure.mp hfaithful
  have hperform : (call.perform (after calls)).store =
      (loadWithin source config (config.maxDepth - 1) name (after calls)).2.store := by
    rcases hcall with rfl | rfl
    · rfl
    · rw [Call.perform, store_of_ensure]
      rfl
  obtain ⟨id, hid, hdefined, hdeclared⟩ := hwhole.declaredWhole hsource (Regime.depth_nil config)
    (hcalled source config)
  rw [← hperform] at hid hdefined hdeclared
  have hloaded := steady_perform hfaithful hcalled
  have hgrows : (call.perform (after calls)).store.Grows s := by
    have hlater : s = (performAll later (call.perform (after calls))).store := by
      change (after (calls ++ call :: later)).store = _
      rw [after_append]
      rfl
    rw [hlater]
    exact (extends_performAll (fun c hc => hcalls c (by simp [hc])) hloaded).grows
  exact ⟨id, hgrows.lookup? hid, by rw [hgrows.get_eq id hdefined, hdefined],
    hdeclared.mono (hloaded source config).sound hgrows hdefined⟩

/-- A class that is loaded without dropping a signature of it: whatever was called before and is
called later, a canonical signature of the class or of a method is written as the stub has it,
exactly if no type variable that it declares has for its first bound a variable that erases to an
interface. -/
theorem canonical_signature_kept_iff {calls later : List Call} {call : Call} {source : Source}
    {config : Config} {name : String}
    (hcall : call = .load source config name ∨ call = .ensure source config name)
    (hcalls : ∀ c ∈ calls ++ call :: later, c.Faithful) {n : String} {stub : ClassStub}
    (hwhole : LoadsWhole source config n stub (config.maxDepth - 1) name (after calls)) :
    let s := (after (calls ++ call :: later)).store
    ∃ id, s.lookup? n = some id ∧ (s.get id).isPlaceholder = false ∧
      (∀ sig : ClassSignature, stub.signature = some sig.text →
        sig.IsCanonical s stub.flags.isInterface →
        ((s.get id).signatureText? s = some sig.text ↔
          ∀ v ∈ (s.get id).typeVariables, ¬ v.extendsInterfaceVariable s)) ∧
      List.Forall₂ (fun m d => ∀ sig : MethodSignature, m.signature = some sig.text →
        sig.IsCanonical s → ((Method.ofDecl id d).signatureText? s = some sig.text ↔
          ∀ v ∈ d.typeVariables, ¬ v.extendsInterfaceVariable s))
        stub.methods (s.get id).methods := by
  intro s
  obtain ⟨id, hid, hdefined, hdeclared⟩ := declaredWhole_after hcall hcalls hwhole
  have hroot : ClassId.object.index < Store.initial.size := by decide
  have hobject : s.lookup? "java.lang.Object" = some .object :=
    (steady_after hcalls source config).seeded.lookup? (Store.sound_initial.lookup?_name hroot)
  exact ⟨id, hid, hdefined, fun _ => headerText_of_canonical hobject hdeclared,
    methodTexts_of_canonical hobject hdeclared⟩

def crateMethod : MethodStub where
  name := "take"
  descriptor := "(Lp/Crate$Slot;)Ljava/lang/Object;"
  signature := some "<X:Ljava/lang/Throwable;>(Lp/Crate<+TT;TU;*>.Slot;)TU;^TX;"
  flags := .empty
  exceptions := ["java/lang/Throwable"]
  annotations := []
  defaultValue := none
  parameters := []

/-- `Crate<T, U extends T, C extends Cloneable & Serializable>` with a method
`<X extends Throwable> U take(Crate<? extends T, U, ?>.Slot) throws X`. -/
def crateStub : ClassStub :=
  { bareStub "p.Crate" with
    signature := some
      "<T:Ljava/lang/Object;U:TT;C::Ljava/lang/Cloneable;:Ljava/io/Serializable;>Ljava/lang/Object;"
    methods := [crateMethod] }

def crateSignature : ClassSignature where
  typeParameters :=
    [⟨"T", some (.classType rootTree), []⟩, ⟨"U", some (.variable "T"), []⟩,
      ⟨"C", none, [.classType (.top "java/lang" "Cloneable" []),
        .classType (.top "java/io" "Serializable" [])]⟩]
  superclass := rootTree
  interfaces := []

def takeSignature : MethodSignature where
  typeParameters := [⟨"X", some (.classType (.top "java/lang" "Throwable" [])), []⟩]
  parameters :=
    [.classType (.member (.top "p" "Crate" [.extends (.variable "T"), .exact (.variable "U"), .any])
      "Slot" [])]
  returnType := some (.variable "U")
  throws := [.variable "X"]

def crateCall : Call := .load (ofStubs [crateStub]) {} "p.Crate"

theorem loadsWhole_crate :
    LoadsWhole (ofStubs [crateStub]) {} "p.Crate" crateStub 63 "p.Crate" (after []) :=
  .of_isSome (.of_unknown rfl (by decide +kernel) (by decide +kernel) (by decide +kernel))
    (by decide +kernel)

theorem crateSignature_isCanonical :
    crateSignature.IsCanonical (after [crateCall]).store false where
  wellFormed := by decide +kernel
  identifiers := by decide +kernel
  parameters := by decide +kernel
  types := by decide +kernel
  root h := by cases h
  generic := Or.inl (by simp [crateSignature])

theorem takeSignature_isCanonical : takeSignature.IsCanonical (after [crateCall]).store where
  wellFormed := by decide +kernel
  identifiers := by decide +kernel
  parameters := by decide +kernel
  types := by decide +kernel
  throws := Or.inr ⟨.variable "X", List.mem_singleton_self _, rfl⟩
  generic := Or.inl (by simp [takeSignature])

theorem variables_of_crate : let s := (after [crateCall]).store
    s.lookup? "p.Crate" = some ⟨14⟩ ∧
    (∀ v ∈ (s.get ⟨14⟩).typeVariables, ¬ v.extendsInterfaceVariable s) ∧
    ∀ d ∈ (s.get ⟨14⟩).methods, ∀ v ∈ d.typeVariables, ¬ v.extendsInterfaceVariable s := by
  decide +kernel

/-- Both signatures of the class are written as its stub has them. -/
theorem crate_keeps_its_signatures :
    (∀ c ∈ [] ++ crateCall :: [], c.Faithful) ∧
    LoadsWhole (ofStubs [crateStub]) {} "p.Crate" crateStub 63 "p.Crate" (after []) ∧
    crateSignature.IsCanonical (after [crateCall]).store false ∧
    takeSignature.IsCanonical (after [crateCall]).store ∧
    let s := (after [crateCall]).store
    s.lookup? "p.Crate" = some ⟨14⟩ ∧
    (s.get ⟨14⟩).signatureText? s = crateStub.signature ∧
    ∀ d ∈ (s.get ⟨14⟩).methods,
      (Method.ofDecl ⟨14⟩ d).signatureText? s = crateMethod.signature := by
  have hcalls : ∀ c ∈ [] ++ crateCall :: [], c.Faithful := by
    intro c hc
    obtain rfl := List.mem_singleton.mp hc
    exact Call.faithful_load.mpr (faithful_ofStubs _)
  refine ⟨hcalls, loadsWhole_crate, crateSignature_isCanonical, takeSignature_isCanonical, ?_⟩
  intro s
  obtain ⟨id, hid, _, hclass, hmethods⟩ :=
    canonical_signature_kept_iff (Or.inl rfl) hcalls loadsWhole_crate
  obtain ⟨hplace, hvariables, hmethodVariables⟩ := variables_of_crate
  obtain rfl : (⟨14⟩ : ClassId) = id := Option.some.inj (hplace.symm.trans hid)
  refine ⟨hplace, (hclass crateSignature rfl crateSignature_isCanonical).mpr hvariables, ?_⟩
  intro d hd
  obtain ⟨m, hm, htext⟩ := exists_of_mem_right hmethods hd
  obtain rfl := List.mem_singleton.mp hm
  exact (htext takeSignature rfl takeSignature_isCanonical).mpr (hmethodVariables d hd)

/-- `Alias<T extends Cloneable, U extends T>`. -/
def aliasStub : ClassStub :=
  { bareStub "p.Alias" with
    signature := some "<T::Ljava/lang/Cloneable;U:TT;>Ljava/lang/Object;" }

def aliasSignature : ClassSignature where
  typeParameters :=
    [⟨"T", none, [.classType (.top "java/lang" "Cloneable" [])]⟩, ⟨"U", some (.variable "T"), []⟩]
  superclass := rootTree
  interfaces := []

def aliasCall : Call := .load (ofStubs [aliasStub]) {} "p.Alias"

theorem declared_alias : let s := (after [aliasCall]).store
    let c := s.get ⟨14⟩
    s.lookup? "p.Alias" = some ⟨14⟩ ∧ s.lookup? "java.lang.Cloneable" = some ⟨2⟩ ∧
    s.lookup? "java.lang.Object" = some .object ∧ (Erased.cls ⟨2⟩).isInterface s = true ∧
    c.typeVariables = [⟨"T", [.ofClass ⟨2⟩]⟩, ⟨"U", [.variable ⟨"T", .type ⟨14⟩, .cls ⟨2⟩⟩]⟩] ∧
    c.superclass = some .object ∧ c.interfaces = [] := by
  decide +kernel

theorem signature_of_alias :
    ((after [aliasCall]).store.get ⟨14⟩).signature (after [aliasCall]).store =
      .ok ⟨[⟨"T", none, [.classType (.top "java/lang" "Cloneable" [])]⟩,
        ⟨"U", none, [.variable "T"]⟩], rootTree, []⟩ := by
  obtain ⟨_, hlookup, hobject, hcloneable, hvars, hsuper, hinterfaces⟩ := declared_alias
  generalize (after [aliasCall]).store = s at *
  have hraw : rawTree s ⟨2⟩ = .raw (ClassTree.top "java/lang" "Cloneable" []).internalName :=
    rawTree_eq hlookup (by decide)
  rw [raw_internalName (by decide)] at hraw
  have hroot : Shape.object.classSignature s = .ok rootTree := by
    rw [Shape.classSignature, Shape.signature, Shape.object, Shape.ofClass, ofShape, ofErased,
      rawTree_object hobject]
    rfl
  have hT : [Shape.ofClass ⟨2⟩].mapM (Shape.signature s) =
      .ok [.classType (.top "java/lang" "Cloneable" [])] := by
    rw [List.mapM_cons, List.mapM_nil, Shape.signature, Shape.ofClass, ofShape, ofErased, hraw]
    rfl
  have hU : [Shape.variable ⟨"T", .type ⟨14⟩, .cls ⟨2⟩⟩].mapM (Shape.signature s) =
      .ok [.variable "T"] := by
    rw [List.mapM_cons, List.mapM_nil, Shape.signature, ofShape]
    rfl
  rw [ClassDecl.signature, hvars, hsuper, hinterfaces, List.mapM_cons, List.mapM_cons,
    parameter_eq (u := .ofClass ⟨2⟩) rfl hT, parameter_eq (u := .variable _) rfl hU,
    Option.map_some, hroot]
  simp only [Shape.erasure?, Shape.ofClass, Option.map_some, Option.getD_some, hcloneable, if_true]
  rfl

theorem aliasSignature_isCanonical :
    aliasSignature.IsCanonical (after [aliasCall]).store false where
  wellFormed := by decide +kernel
  identifiers := by decide +kernel
  parameters := by decide +kernel
  types := by decide +kernel
  root h := by cases h
  generic := Or.inl (by simp [aliasSignature])

/-- The bound `T` of `U` erases to an interface, and the writer puts it behind two colons, where no
compiler puts a variable. -/
theorem variable_is_written_as_interface :
    Faithful (ofStubs [aliasStub]) ∧
    LoadsWhole (ofStubs [aliasStub]) {} "p.Alias" aliasStub 63 "p.Alias" (after []) ∧
    (after [aliasCall]).dropped = [] ∧
    let s := (after [aliasCall]).store
    aliasStub.signature = some aliasSignature.text ∧ aliasSignature.IsCanonical s false ∧
    s.lookup? "p.Alias" = some ⟨14⟩ ∧
    (s.get ⟨14⟩).signatureText? s =
      some "<T::Ljava/lang/Cloneable;U::TT;>Ljava/lang/Object;" ∧
    (s.get ⟨14⟩).signatureText? s ≠ aliasStub.signature := by
  obtain ⟨hplace, _, _, _, hvars, _⟩ := declared_alias
  have htext : ((after [aliasCall]).store.get ⟨14⟩).signatureText? (after [aliasCall]).store =
      some "<T::Ljava/lang/Cloneable;U::TT;>Ljava/lang/Object;" := by
    rw [ClassDecl.signatureText?, ClassDecl.isGeneric, hvars, signature_of_alias]
    rfl
  refine ⟨faithful_ofStubs _, .of_isSome (.of_unknown rfl (by decide +kernel) (by decide +kernel)
    (by decide +kernel)) (by decide +kernel), by decide +kernel, rfl,
    aliasSignature_isCanonical, hplace, htext, ?_⟩
  rw [htext]
  decide +kernel

end Loader

end JvmTypes
