import JvmTypes.Proofs.Loader.Parameters
/-!
# Coherent declarations

In a coherent declaration every reference to a type variable is the one that the scope of the
declaration yields for its symbol, with the same source and the same erasure. Where no list of type
parameters repeats a name, all that the loader declares is coherent.
-/
namespace JvmTypes

namespace MethodDecl

def shapes (m : MethodDecl) : List Shape :=
  m.typeVariables.flatMap (·.bounds) ++ m.returnType :: (m.parameters.map (·.type) ++ m.exceptions)

def scopeIn (m : MethodDecl) (outer : Scope) : Scope :=
  (Scope.ofDecls .method m.typeVariables).orElse outer

structure Coherent (outer : Scope) (m : MethodDecl) : Prop where
  shapes : ∀ t ∈ m.shapes, t.WellFormed fun v => m.scopeIn outer v.symbol = some v
  grounded : ∀ symbol, TypeVarDecl.Grounded m.typeVariables symbol

end MethodDecl

namespace ClassDecl

def shapes (c : ClassDecl) : List Shape :=
  c.typeVariables.flatMap (·.bounds) ++ (c.superclass.toList ++ c.interfaces) ++
    c.fields.map (·.type)

/-- No list of type parameters names two of them alike. -/
structure HasDistinctParameters (c : ClassDecl) : Prop where
  own : (c.typeVariables.map (·.symbol)).Nodup
  methods : ∀ m ∈ c.methods, (m.typeVariables.map (·.symbol)).Nodup

theorem hasDistinctParameters_iff (c : ClassDecl) : c.HasDistinctParameters ↔
    (c.typeVariables.map (·.symbol)).Nodup ∧
    ∀ m ∈ c.methods, (m.typeVariables.map (·.symbol)).Nodup :=
  ⟨fun h => ⟨h.own, h.methods⟩, fun h => ⟨h.1, h.2⟩⟩

instance (c : ClassDecl) : Decidable c.HasDistinctParameters :=
  decidable_of_iff' _ c.hasDistinctParameters_iff

structure Coherent (s : Store) (id : ClassId) (c : ClassDecl) : Prop where
  shapes : ∀ t ∈ c.shapes, t.WellFormed fun v => Scope.inside s id c v.symbol = some v
  methods : ∀ m ∈ c.methods, m.Coherent (Scope.inside s id c)

theorem Coherent.mono {s t : Store} (h : s.Grows t) (hs : s.Sound) {id : ClassId} {c : ClassDecl}
    (hc : c.Coherent s id) : c.Coherent t id := by
  refine ⟨?_, ?_⟩
  · intro u hu
    exact (hc.shapes u hu).imp fun v hv => Scope.inside_mono h hs hv
  · intro m hm
    refine ⟨?_, (hc.methods m hm).grounded⟩
    intro u hu
    refine ((hc.methods m hm).shapes u hu).imp fun v hv => ?_
    rcases Option.or_eq_some_iff.mp hv with hv | ⟨hnone, hv⟩
    · exact Option.or_eq_some_iff.mpr (Or.inl hv)
    · exact Option.or_eq_some_iff.mpr (Or.inr ⟨hnone, Scope.inside_mono h hs hv⟩)

section Stored

variable {s : Store} {id : ClassId} (h : (s.get id).Coherent s id)
include h

/-- Every reference in the class is the one that the scope of the class in the store yields. -/
theorem Coherent.wellFormed {t : Shape} (ht : t ∈ (s.get id).shapes) :
    t.WellFormed fun v => Scope.ofClass s id v.symbol = some v := by
  rw [Scope.ofClass_eq_inside]
  exact h.shapes t ht

theorem Coherent.method {m : MethodDecl} (hm : m ∈ (s.get id).methods) :
    m.Coherent (Scope.ofClass s id) := by
  rw [Scope.ofClass_eq_inside]
  exact h.methods m hm

end Stored

end ClassDecl

namespace Loader

open Signature

namespace Script

variable {A : Answers} {sur : Surroundings}

section Definite

variable (hA : A.Definite)
include hA

theorem bounds_wellFormed {params : List TypeParameter} {vars : List TypeVarDecl}
    (h : List.Forall₂ (fun p d => (typeVariable sur p).Ends A (some d)) params vars) :
    ∀ t ∈ vars.flatMap (·.bounds), t.WellFormed (sur.Knows A) := by
  intro t ht
  obtain ⟨d, hd, ht⟩ := List.mem_flatMap.mp ht
  obtain ⟨p, _, hend⟩ := exists_of_mem_right h hd
  rcases (ends_typeVariable hend).2 with ⟨_, hobject⟩ | hall
  · obtain rfl : t = .object := by simpa [hobject] using ht
    exact Shape.wellFormed_plain _
  · obtain ⟨tree, _, htree⟩ := exists_of_mem_right hall ht
    exact shape_wellFormed hA tree htree

omit hA in
theorem var_of_knows {id : ClassId} {enclosing : Option ClassId} {v : TypeVariable}
    (h : Surroundings.Knows A { declaring := id, enclosing := enclosing } v) :
    A.var v.symbol (some v) := by
  have hempty : Erasures.get? [] v.symbol = none := Erasures.get?_nil _
  rcases ends_variableNamed h with ⟨e, he, _⟩ | ⟨_, e, he, _⟩ | ⟨_, _, hv⟩
  · simp [hempty] at he
  · simp [hempty] at he
  · exact hv

theorem header_coherent {id : ClassId} {enclosing : Option ClassId} {stub : ClassStub} {hd : Header}
    (h : (header { declaring := id, enclosing := enclosing } stub).Ends A (some hd))
    (hdistinct : (hd.typeVariables.map (·.symbol)).Nodup) :
    hd.surroundings.methodVariables = [] ∧
      (∀ v, hd.surroundings.Knows A v →
        Scope.ofDecls (.type id) hd.typeVariables v.symbol = some v ∨
        (Scope.ofDecls (.type id) hd.typeVariables v.symbol = none ∧ A.var v.symbol (some v))) ∧
      ∀ t ∈ hd.typeVariables.flatMap (·.bounds) ++ (hd.superclass.toList ++ hd.interfaces),
        t.WellFormed (hd.surroundings.Knows A) := by
  rcases ends_header h with ⟨text, sig, _, _, h⟩ | h
  · obtain ⟨es, hes, hsur, hvars, hsuper, hinterfaces⟩ := ends_headerOf h
    have hvars' := hvars
    rw [hsur] at hvars'
    refine ⟨by rw [hsur], ?_, ?_⟩
    · intro v hv
      rw [hsur] at hv
      rcases knows_declared hA (extends_class rfl rfl) hes hvars' hdistinct hv with hv | ⟨hnone, hv⟩
      · exact Or.inl hv
      · exact Or.inr ⟨hnone, var_of_knows hv⟩
    · intro t ht
      rcases List.mem_append.mp ht with ht | ht
      · exact bounds_wellFormed hA hvars t ht
      · rcases List.mem_append.mp ht with ht | ht
        · exact classShape_wellFormed hA _ (hsuper t (by simpa using ht))
        · obtain ⟨c, _, hend⟩ := exists_of_mem_right hinterfaces ht
          exact classShape_wellFormed hA c hend
  · obtain ⟨hsur, hnil, hplain⟩ := ends_plainHeader h
    refine ⟨by rw [hsur], ?_, ?_⟩
    · intro v hv
      rw [hsur] at hv
      exact Or.inr ⟨by rw [hnil]; rfl, var_of_knows hv⟩
    · intro t ht
      obtain ⟨e, rfl⟩ := hplain t (by simpa [hnil] using ht)
      exact Shape.wellFormed_plain e

section Method

variable {stub : MethodStub} {types : MethodTypes} {exceptions : List Shape} {outer : Scope}
  (hexceptions : (exceptionTypes stub types).Ends A (some exceptions))
include hexceptions

omit hA in
theorem mem_shapes_methodDeclWith {t : Shape}
    (ht : t ∈ (methodDeclWith stub types exceptions).shapes) :
    (∃ e, t = .plain e) ∨ t ∈ types.typeVariables.flatMap (·.bounds) ∨
      t ∈ types.returnType :: (types.parameters ++ types.exceptions) := by
  simp only [MethodDecl.shapes, methodDeclWith, types_of_parameterDecls, List.mem_append,
    List.mem_cons] at ht ⊢
  rcases ht with ht | ht | ht | ht
  · exact Or.inr (Or.inl ht)
  · exact Or.inr (Or.inr (Or.inl ht))
  · exact Or.inr (Or.inr (Or.inr (Or.inl ht)))
  · rcases ends_exceptionTypes hexceptions with ⟨_, hplain⟩ | rfl
    · exact Or.inl (hplain t ht)
    · exact Or.inr (Or.inr (Or.inr (Or.inr ht)))

theorem methodTypesOf_coherent {descriptor : MethodDescriptor} {sig : MethodSignature}
    (h : (methodTypesOf sur descriptor sig).Ends A (some types))
    (hmethod : sur.methodVariables = [])
    (houter : ∀ v, sur.Knows A v → outer v.symbol = some v)
    (hdistinct : (types.typeVariables.map (·.symbol)).Nodup) :
    (methodDeclWith stub types exceptions).Coherent outer := by
  obtain ⟨_, es, hes, htypes⟩ := ends_methodTypesOf h
  have hvars := (ends_methodTypesIn.mp htypes).1
  have hrest := tree_of_methodTypesIn htypes
  have hknows : ∀ v, Surroundings.Knows A { sur with methodVariables := es } v →
      (methodDeclWith stub types exceptions).scopeIn outer v.symbol = some v := by
    intro v hv
    rcases knows_declared hA (extends_method hmethod) hes hvars hdistinct hv with hv | ⟨hnone, hv⟩
    · exact Option.or_eq_some_iff.mpr (Or.inl hv)
    · exact Option.or_eq_some_iff.mpr (Or.inr ⟨hnone, houter v hv⟩)
  refine ⟨?_, grounded_of_parameterErasures hA hvars hdistinct hes⟩
  intro t ht
  rcases mem_shapes_methodDeclWith hexceptions ht with ⟨e, rfl⟩ | ht | ht
  · exact Shape.wellFormed_plain e
  · exact (bounds_wellFormed hA hvars t ht).imp hknows
  · rcases hrest t ht with rfl | ⟨tree, htree⟩
    · exact Shape.wellFormed_plain _
    · exact (shape_wellFormed hA tree htree).imp hknows

omit hA in
theorem plainTypes_coherent {descriptor : MethodDescriptor}
    (h : (plainTypes descriptor).Ends A (some types)) :
    (methodDeclWith stub types exceptions).Coherent outer := by
  obtain ⟨hnil, hnone, hplain⟩ := ends_plainTypes h
  refine ⟨?_, ?_⟩
  · intro t ht
    rcases mem_shapes_methodDeclWith hexceptions ht with ⟨e, rfl⟩ | ht | ht
    · exact Shape.wellFormed_plain e
    · simp [hnil] at ht
    · obtain ⟨e, rfl⟩ := hplain t (by simpa [hnone] using ht)
      exact Shape.wellFormed_plain e
  · intro symbol
    exact TypeVarDecl.grounded_of_undeclared (by simp [methodDeclWith, hnil])

end Method

theorem methodDecl_coherent {className : String} {stub : MethodStub} {d : MethodDecl}
    {outer : Scope} (h : (methodDecl sur className stub).Ends A (some d))
    (hmethod : sur.methodVariables = []) (houter : ∀ v, sur.Knows A v → outer v.symbol = some v)
    (hdistinct : (d.typeVariables.map (·.symbol)).Nodup) :
    d.Coherent outer := by
  obtain ⟨descriptor, types, exceptions, _, rfl, hexceptions, htypes⟩ := ends_methodDecl h
  rcases htypes with ⟨text, sig, _, _, htypes⟩ | htypes
  · exact methodTypesOf_coherent hA hexceptions htypes hmethod houter hdistinct
  · exact plainTypes_coherent hexceptions htypes

/-- What a stub declares is coherent in every store that gives the variables around the class as
they were answered. -/
theorem classDecl_coherent {id : ClassId} {stub : ClassStub} {decl : ClassDecl} {s : Store}
    (h : (classDecl id stub).Ends A (some decl))
    (hvar : ∀ symbol v, A.var symbol (some v) → seenFrom s decl.enclosing symbol = some v)
    (hdistinct : decl.HasDistinctParameters) : decl.Coherent s id := by
  obtain ⟨declaring, _, h⟩ := ends_classDecl h
  obtain ⟨hd, hhd, hfields, hmethods, _, _, _, _, _, hvars, hsuper, hinterfaces⟩ := ends_classBody h
  obtain ⟨hmethod, hknows, hshapes⟩ := header_coherent hA hhd (hvars ▸ hdistinct.own)
  have hinside : ∀ v, hd.surroundings.Knows A v → Scope.inside s id decl v.symbol = some v := by
    intro v hv
    rw [Scope.inside, Scope.orElse, hvars]
    rcases hknows v hv with hv | ⟨hnone, hv⟩
    · exact Option.or_eq_some_iff.mpr (Or.inl hv)
    · exact Option.or_eq_some_iff.mpr (Or.inr ⟨hnone, hvar _ v hv⟩)
  refine ⟨?_, ?_⟩
  · intro t ht
    rw [ClassDecl.shapes, hvars, hsuper, hinterfaces] at ht
    rcases List.mem_append.mp ht with ht | ht
    · exact (hshapes t ht).imp hinside
    · obtain ⟨f, hf, rfl⟩ := List.mem_map.mp ht
      obtain ⟨stub', _, hend⟩ := exists_of_mem_right hfields hf
      rcases ends_fieldDecl hend with ⟨_, tree, _, _, htree⟩ | ⟨_, _, hplain⟩
      · exact (shape_wellFormed hA tree htree).imp hinside
      · obtain ⟨e, he⟩ := ends_fieldShape hplain
        rw [he]
        exact Shape.wellFormed_plain e
  · intro m hm
    obtain ⟨stub', _, hend⟩ := exists_of_mem_right hmethods hm
    exact methodDecl_coherent hA hend hmethod hinside (hdistinct.methods m hm)

end Definite

end Script

end Loader

end JvmTypes
