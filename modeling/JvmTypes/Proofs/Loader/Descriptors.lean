import JvmTypes.Field
import JvmTypes.Method.Text
import JvmTypes.Proofs.Descriptor
import JvmTypes.Proofs.Loader.Surroundings
import JvmTypes.Proofs.Method.Reattachment
import JvmTypes.Proofs.Signature.Acceptance
/-!
# Descriptors of loaded members

A member whose types were read from its descriptor has that descriptor. The types of a signature are
taken as they are: the descriptor of the member is then that of the erased signature, and nothing
ties it to the one in the stub but the number of parameters.
-/
namespace JvmTypes

namespace Signature

/-- The descriptor of a type whose variables erase to the given descriptors. -/
def TypeTree.erased (ofVariable : String → String) : TypeTree → String
  | .base b => b.letter.toString
  | .classType c => "L" ++ c.internalName ++ ";"
  | .variable name => ofVariable name
  | .array component => "[" ++ component.erased ofVariable

def MethodSignature.erased (ofVariable : String → String) (sig : MethodSignature) : String :=
  "(" ++ String.join (sig.parameters.map (TypeTree.erased ofVariable)) ++ ")" ++
    (sig.returnType.map (TypeTree.erased ofVariable)).getD "V"

end Signature

namespace Loader

open Signature

def Surroundings.variableDescriptor (s : Store) (sur : Surroundings) (name : String) : String :=
  ((sur.resolve? s name).map fun v => v.erasure.descriptor s).getD ""

theorem resolve?_of_variableNamed {s : Store} {sur : Surroundings} {name : String}
    {v : TypeVariable}
    (h : (Script.variableNamed sur name).Ends (known s sur.enclosing) (some v)) :
    sur.resolve? s name = some v := by
  rcases Script.ends_variableNamed h with ⟨e, he, rfl⟩ | ⟨hm, e, he, rfl⟩ | ⟨hm, hc, hv⟩
  · simp only [Surroundings.resolve?, he]
  · simp only [Surroundings.resolve?, hm, he]
  · rw [resolve?_eq_seenFrom hm hc]
    exact hv.2.symm

theorem descriptor_of_class {s : Store} {id : ClassId} {internal : String}
    (hid : s.lookup? (Name.toBinary internal) = some id) (hdot : '.' ∉ internal.toList) :
    (Erased.cls id).descriptor s = "L" ++ internal ++ ";" := by
  rw [Erased.descriptor, Store.name_of_lookup? hid, Name.toInternal_toBinary hdot]

theorem erasure_of_shape {s : Store} (sur : Surroundings) :
    ∀ {t : TypeTree} {w : List Char} {u : Shape}, t.Spells w →
      (Script.shape sur t).Ends (known s sur.enclosing) (some u) →
      ∃ e, u.erasure? = some e ∧ e.descriptor s = t.erased (sur.variableDescriptor s)
  | _, _, u, .base b, h => by
    obtain rfl := Option.some.inj h
    exact ⟨_, rfl, rfl⟩
  | _, _, u, .ofClass hc, h => by
    obtain ⟨id, hid, herasure⟩ := Script.erasure?_of_classShape h
    exact ⟨_, herasure, descriptor_of_class (Script.ends_classNamed hid)
      (ClassTree.dot_not_mem hc.isWellFormed)⟩
  | _, _, u, .ofVariable name _, h => by
    obtain ⟨v, hv, hu⟩ := Script.ends_bind_some.mp h
    obtain rfl := Option.some.inj hu
    refine ⟨_, rfl, ?_⟩
    rw [TypeTree.erased, Surroundings.variableDescriptor, resolve?_of_variableNamed hv]
    rfl
  | _, _, u, .array ht, h => by
    obtain ⟨c, hc, hu⟩ := Script.ends_bind_some.mp h
    obtain rfl := Option.some.inj hu
    obtain ⟨e, he, htext⟩ := erasure_of_shape sur ht hc
    exact ⟨.array e, by rw [Shape.erasure?_arrayOf, he]; rfl, by
      rw [Erased.descriptor, htext, TypeTree.erased]⟩

theorem erasure_of_fieldShape {A : Answers} {s : Store}
    (hA : ∀ name id, A.cls name id → s.lookup? name = some id) :
    ∀ {t : FieldType} {u : Shape}, '.' ∉ Descriptor.write t →
      (Script.fieldShape t).Ends A (some u) →
      ∃ e, u.erasure? = some e ∧ (e.descriptor s).toList = Descriptor.write t
  | .base b, u, _, h => by
    obtain rfl := Option.some.inj h
    exact ⟨_, rfl, by simp [Erased.descriptor, Descriptor.write]⟩
  | .array c, u, hdot, h => by
    obtain ⟨c', hc, hu⟩ := Script.ends_bind_some.mp h
    obtain rfl := Option.some.inj hu
    rw [Descriptor.write, List.mem_cons, not_or] at hdot
    obtain ⟨e, he, htext⟩ := erasure_of_fieldShape hA hdot.2 hc
    exact ⟨.array e, by rw [Shape.erasure?_arrayOf, he]; rfl, by
      rw [Erased.descriptor, String.toList_append, htext]; rfl⟩
  | .object name, u, hdot, h => by
    rcases h with ⟨id, hid, hu⟩ | ⟨_, hu⟩
    · obtain rfl := Option.some.inj hu
      have hname : '.' ∉ name.toList := fun hmem => hdot (by simp [Descriptor.write, hmem])
      refine ⟨_, rfl, ?_⟩
      rw [descriptor_of_class (hA _ _ hid) hname]
      simp [Descriptor.write]
    · cases hu

theorem erasures_of_forall₂ {s : Store} {R : α → Shape → Prop} {text : α → String} {xs : List α}
    {us : List Shape}
    (hR : ∀ x ∈ xs, ∀ u, R x u → ∃ e, u.erasure? = some e ∧ e.descriptor s = text x)
    (h : List.Forall₂ R xs us) :
    ∃ es, Shape.erasures us = .ok es ∧ es.map (Erased.descriptor s) = xs.map text := by
  induction h with
  | nil => exact ⟨[], rfl, rfl⟩
  | @cons x u xs us hx _ ih =>
    obtain ⟨e, he, htext⟩ := hR x (List.mem_cons_self ..) u hx
    obtain ⟨es, hes, htexts⟩ := ih fun y hy => hR y (List.mem_cons_of_mem _ hy)
    exact ⟨e :: es, by rw [Shape.erasures_cons, Shape.erasure_eq he, hes]; rfl, by
      rw [List.map_cons, List.map_cons, htext, htexts]⟩

theorem descriptor_of_erasures {s : Store} {id : ClassId} {stub : MethodStub} {types : MethodTypes}
    {exceptions : List Shape} {es : List Erased} {r : Erased}
    (hes : Shape.erasures types.parameters = .ok es) (hr : types.returnType.erasure? = some r) :
    (Method.ofDecl id (Script.methodDeclWith stub types exceptions)).descriptor s =
      .ok ("(" ++ String.join (es.map (Erased.descriptor s)) ++ ")" ++ r.descriptor s) := by
  have hparameters : (Method.ofDecl id (Script.methodDeclWith stub types exceptions)).parameterTypes
      = types.parameters := types_of_parameterDecls stub.parameters types.parameters
  have hreturn : (Method.ofDecl id (Script.methodDeclWith stub types exceptions)).returnType =
      types.returnType := rfl
  rw [Method.descriptor, hparameters, hreturn, hes, Shape.erasure_eq hr]
  rfl

/-- How the descriptor of a field comes about: it is that of the stub, or that of the signature. -/
inductive DescribesField (s : Store) (id : ClassId) (f : FieldStub) (d : FieldDecl) : Prop
  | read (h : (Field.ofDecl id d).descriptor s = .ok f.descriptor)
  | signed {text : String} {tree : TypeTree} (htext : f.signature = some text)
      (hparse : TypeTree.parse text = .ok tree)
      (h : (Field.ofDecl id d).descriptor s =
        .ok (tree.erased ((surroundings s id).variableDescriptor s)))

/-- How the descriptor of a method comes about. A signature has to have as many parameters as the
descriptor. -/
inductive DescribesMethod (s : Store) (id : ClassId) (m : MethodStub) (d : MethodDecl) : Prop
  | read (h : (Method.ofDecl id d).descriptor s = .ok m.descriptor)
  | signed {text : String} {sig : MethodSignature} {descriptor : MethodDescriptor}
      (htext : m.signature = some text) (hparse : MethodSignature.parse text = .ok sig)
      (htype : m.type = .ok descriptor)
      (hcount : sig.parameters.length = descriptor.parameters.length)
      (h : (Method.ofDecl id d).descriptor s =
        .ok (sig.erased (((surroundings s id).inMethod d).variableDescriptor s)))

theorem describes_field {s : Store} {id : ClassId} {className : String} {f : FieldStub}
    {d : FieldDecl} (hdot : '.' ∉ f.descriptor.toList)
    (h : (Script.fieldDecl (surroundings s id) className f).Ends
      (possibly s (s.get id).enclosing) (some d)) : DescribesField s id f d := by
  rcases Script.ends_fieldDecl h with ⟨text, tree, htext, hparse, htree⟩ | ⟨t, htype, hplain⟩
  · obtain ⟨e, he, heq⟩ := erasure_of_shape (surroundings s id)
      (TypeTree.parse_eq_ok.mp hparse).2 (Script.known_of_shape htree)
    refine .signed htext hparse ?_
    rw [← heq, Field.descriptor, Field.ofDecl, Shape.erasure_eq he]
    rfl
  · have hwrite := Descriptor.write_of_parse htype
    obtain ⟨e, he, heq⟩ := erasure_of_fieldShape (fun _ _ hid => hid) (hwrite ▸ hdot) hplain
    refine .read ?_
    rw [← String.toList_inj.mp (heq.trans hwrite), Field.descriptor, Field.ofDecl,
      Shape.erasure_eq he]
    rfl

theorem describes_read {s : Store} {id : ClassId} {m : MethodStub} {descriptor : MethodDescriptor}
    {types : MethodTypes} {exceptions : List Shape} (hdot : '.' ∉ m.descriptor.toList)
    (htype : m.type = .ok descriptor)
    (h : (Script.plainTypes descriptor).Ends (possibly s (s.get id).enclosing) (some types)) :
    (Method.ofDecl id (Script.methodDeclWith m types exceptions)).descriptor s =
      .ok m.descriptor := by
  have hwrite := Descriptor.writeMethod_of_parse htype
  rw [← hwrite] at hdot
  simp only [Script.plainTypes, Script.ends_bind_some, Script.ends_mapM_some, Script.ends_pure,
    Option.some.injEq] at h
  obtain ⟨ps, hps, r, hr, rfl⟩ := h
  have hparameter : ∀ t ∈ descriptor.parameters, ∀ u,
      (Script.fieldShape t).Ends (possibly s (s.get id).enclosing) (some u) →
      ∃ e, u.erasure? = some e ∧ e.descriptor s = t.descriptor := by
    intro t ht u hu
    have hnot : '.' ∉ Descriptor.write t := fun hmem => hdot (by
      rw [Descriptor.writeMethod]
      exact List.mem_cons_of_mem _ (List.mem_append_left _ (List.mem_flatMap.mpr ⟨t, ht, hmem⟩)))
    obtain ⟨e, he, heq⟩ := erasure_of_fieldShape (fun _ _ hid => hid) hnot hu
    exact ⟨e, he, by rw [FieldType.descriptor, ← heq, String.ofList_toList]⟩
  obtain ⟨es, hes, htexts⟩ := erasures_of_forall₂ hparameter hps
  have hreturn : ∃ e, r.erasure? = some e ∧
      (e.descriptor s).toList = descriptor.returnType.elim ['V'] Descriptor.write := by
    cases ht : descriptor.returnType with
    | none =>
      rw [ht] at hr
      obtain rfl := Option.some.inj hr
      exact ⟨.void, rfl, by simp [Erased.descriptor]⟩
    | some t =>
      rw [ht] at hr
      refine erasure_of_fieldShape (fun _ _ hid => hid) (fun hmem => hdot ?_) hr
      rw [Descriptor.writeMethod, ht]
      exact List.mem_cons_of_mem _ (List.mem_append_right _ (List.mem_cons_of_mem _ hmem))
  obtain ⟨e, he, heq⟩ := hreturn
  rw [descriptor_of_erasures hes he, htexts]
  refine congrArg Except.ok (String.toList_inj.mp ?_)
  rw [← hwrite, Descriptor.writeMethod]
  have htext : ∀ t : FieldType, t.descriptor.toList = Descriptor.write t :=
    fun t => String.toList_ofList
  cases ht : descriptor.returnType <;> simp [heq, ht, List.flatMap_map, htext]

theorem describes_method {s : Store} {id : ClassId} {className : String} {m : MethodStub}
    {d : MethodDecl} (hdot : '.' ∉ m.descriptor.toList)
    (h : (Script.methodDecl (surroundings s id) className m).Ends
      (possibly s (s.get id).enclosing) (some d)) : DescribesMethod s id m d := by
  obtain ⟨descriptor, types, exceptions, htype, rfl, _, hsigned | hplain⟩ :=
    Script.ends_methodDecl h
  · obtain ⟨text, sig, htext, hparse, htypes⟩ := hsigned
    obtain ⟨hcount, es, hes, htypes⟩ :=
      Script.ends_methodTypesOf (Script.known_of_methodTypesOf htypes)
    obtain ⟨hvars, hps, hr, _⟩ := Script.ends_methodTypesIn.mp htypes
    obtain ⟨_, _, _, _, _, hparameters, hreturn, _⟩ := MethodSignature.parse_eq_ok.mp hparse
    have hsur := Script.erasures_of_ends (definite_known s _) (Script.extends_method rfl) hes hvars
    obtain ⟨es', hes', htexts⟩ := erasures_of_forall₂ (fun t ht u hu => by
      obtain ⟨w, hw⟩ := hparameters.exists_spelling t ht
      exact erasure_of_shape { surroundings s id with methodVariables := es } hw hu) hps
    have hresult : ∃ e, types.returnType.erasure? = some e ∧ e.descriptor s =
        (sig.returnType.map (TypeTree.erased (Surroundings.variableDescriptor s
          { surroundings s id with methodVariables := es }))).getD "V" := by
      cases ht : sig.returnType with
      | none =>
        rw [ht] at hr
        exact ⟨.void, by rw [Option.some.inj (Script.ends_pure.mp hr)]; rfl, rfl⟩
      | some t =>
        rw [ht] at hr hreturn
        obtain ⟨w, hw⟩ : ∃ w, t.Spells w := by cases hreturn with | type hw => exact ⟨_, hw⟩
        exact erasure_of_shape { surroundings s id with methodVariables := es } hw hr
    obtain ⟨e, he, hetext⟩ := hresult
    refine .signed htext hparse htype hcount ?_
    rw [descriptor_of_erasures hes' he, htexts, hetext, hsur]
    rfl
  · exact .read (describes_read hdot htype hplain)

/-- Every class that a loader defines, lenient or strict, comes from a stub. Each of its members has
the descriptor of the stub, or that of its erased signature, which is then used as it stands. -/
theorem descriptors_of_loaded {stubs : ClassStub → Prop} {st : State} (h : Supplied stubs st)
    {id : ClassId} (hdefined : (st.store.get id).isPlaceholder = false)
    (hloaded : Store.initial.size ≤ id.index) :
    ∃ stub, stubs stub ∧ stub.name = st.store.name id ∧
      List.Forall₂ (fun f d => '.' ∉ f.descriptor.toList → DescribesField st.store id f d)
        stub.fields (st.store.get id).fields ∧
      List.Forall₂ (fun m d => '.' ∉ m.descriptor.toList → DescribesMethod st.store id m d)
        stub.methods (st.store.get id).methods := by
  rcases h.provided id hdefined with hseed | ⟨stub, hstub, hdeclared⟩
  · have hlt := Store.index_lt_of_defined hseed
    omega
  · obtain ⟨hfields, hmethods⟩ := hdeclared.members
    exact ⟨stub, hstub, hdeclared.name, hfields.imp fun _ _ hend hdot => describes_field hdot hend,
      hmethods.imp fun _ _ hend hdot => describes_method hdot hend⟩

def mistypedField : FieldStub where
  name := "f"
  descriptor := "Ljava/lang/Object;"
  signature := some "Ljava/lang/String;"
  flags := .empty
  annotations := []

/-- A class with a field whose signature erases to another type than its descriptor names. -/
def mistypedStub : ClassStub where
  name := "p.A"
  flags := .empty
  superclass := some "java.lang.Object"
  interfaces := []
  signature := none
  declaring := none
  annotations := []
  fields := [mistypedField]
  methods := []

def mistypedSource : Source := fun name => if name = "p.A" then some mistypedStub else none

def mistypedState : State := (load mistypedSource {} "p.A" { store := .initial }).2

theorem supplied_mistypedState : Supplied (· = mistypedStub) mistypedState :=
  .single mistypedStub {} "p.A"

theorem descriptors_of_mistyped :
    (mistypedState.store.get ⟨14⟩).isPlaceholder = false ∧ Store.initial.size ≤ 14 ∧
    ∃ stub, stub = mistypedStub ∧ stub.name = mistypedState.store.name ⟨14⟩ ∧
      List.Forall₂ (fun f d => '.' ∉ f.descriptor.toList →
        DescribesField mistypedState.store ⟨14⟩ f d)
        stub.fields (mistypedState.store.get ⟨14⟩).fields ∧
      List.Forall₂ (fun m d => '.' ∉ m.descriptor.toList →
        DescribesMethod mistypedState.store ⟨14⟩ m d)
        stub.methods (mistypedState.store.get ⟨14⟩).methods := by
  have hdefined : (mistypedState.store.get ⟨14⟩).isPlaceholder = false := by decide +kernel
  have hloaded : Store.initial.size ≤ 14 := by decide
  exact ⟨hdefined, hloaded, descriptors_of_loaded supplied_mistypedState hdefined hloaded⟩

theorem descriptor_differs_from_stub :
    ((mistypedState.store.get ⟨14⟩).fields.map fun d =>
      (Field.ofDecl ⟨14⟩ d).descriptor mistypedState.store) = [.ok "Ljava/lang/String;"] ∧
    mistypedStub.fields.map (·.descriptor) = ["Ljava/lang/Object;"] := by
  decide +kernel

end Loader

end JvmTypes
