import JvmTypes.Proofs.Loader.ConversionScript
import JvmTypes.Proofs.Shape.WellFormed
/-!
# What conversions yield

Every shape that a conversion yields is well-formed, and the erasure that a reference to a type
parameter carries is that of the parameter's declaration.
-/
namespace JvmTypes.Loader

open Signature

structure Answers.Definite (A : Answers) : Prop where
  cls : ∀ name i j, A.cls name i → A.cls name j → i = j
  var : ∀ symbol v w, A.var symbol (some v) → A.var symbol (some w) → v = w
  symbol : ∀ symbol v, A.var symbol (some v) → v.symbol = symbol

/-- The reference that the surroundings have for its symbol. -/
def Surroundings.Knows (A : Answers) (sur : Surroundings) (v : TypeVariable) : Prop :=
  (Script.variableNamed sur v.symbol).Ends A (some v)

namespace Script

variable {A : Answers} {sur : Surroundings}

theorem ends_classNamed {c : ClassTree} {id : ClassId} (h : (classNamed c).Ends A (some id)) :
    A.cls (Name.toBinary c.internalName) id := by
  rcases h with ⟨id', hcls, hid⟩ | ⟨_, hid⟩
  · obtain rfl := Option.some.inj hid
    exact hcls
  · simp at hid

theorem ends_variableNamed {name : String} {v : TypeVariable}
    (h : (variableNamed sur name).Ends A (some v)) :
    (∃ e, Erasures.get? sur.methodVariables name = some e ∧ v = ⟨name, .method, e⟩) ∨
      (Erasures.get? sur.methodVariables name = none ∧
        ∃ e, Erasures.get? sur.classVariables name = some e ∧ v = ⟨name, .type sur.declaring, e⟩) ∨
      (Erasures.get? sur.methodVariables name = none ∧
        Erasures.get? sur.classVariables name = none ∧
        A.var name (some v)) := by
  unfold variableNamed at h
  split at h
  · rename_i e he
    exact Or.inl ⟨e, he, Option.some.inj h⟩
  · rename_i hm
    split at h
    · rename_i e he
      exact Or.inr (Or.inl ⟨hm, e, he, Option.some.inj h⟩)
    · rename_i hc
      obtain ⟨found, hfound, h⟩ := h
      cases found with
      | none => simp at h
      | some w =>
        obtain rfl := Option.some.inj h
        exact Or.inr (Or.inr ⟨hm, hc, hfound⟩)

theorem wellFormed_applyTo {P : TypeVariable → Prop} {owner : Option Shape} {raw : ClassId}
    {as : List Shape} (ho : ∀ o ∈ owner, Shape.WellFormed P o)
    (has : ∀ a ∈ as, Shape.WellFormedArgument P a) :
    Shape.WellFormed P (applyTo owner raw as) := by
  unfold applyTo
  split
  · rename_i raw' as' o
    exact Shape.wellFormed_applied has fun p hp => ho p hp
  · split
    · exact Shape.wellFormed_plain _
    · exact Shape.wellFormed_applied has (by simp)

section Definite

variable (hA : A.Definite)
include hA

theorem symbol_of_variableNamed {name : String} {v : TypeVariable}
    (h : (variableNamed sur name).Ends A (some v)) : v.symbol = name := by
  rcases ends_variableNamed h with ⟨e, _, rfl⟩ | ⟨_, e, _, rfl⟩ | ⟨_, _, hv⟩
  · rfl
  · rfl
  · exact hA.symbol name v hv

theorem variableNamed_unique {name : String} {v w : TypeVariable}
    (hv : (variableNamed sur name).Ends A (some v))
    (hw : (variableNamed sur name).Ends A (some w)) : v = w := by
  rcases ends_variableNamed hv with ⟨e, he, rfl⟩ | ⟨hm, e, he, rfl⟩ | ⟨hm, hc, hv⟩ <;>
    rcases ends_variableNamed hw with
      ⟨e', he', rfl⟩ | ⟨hm', e', he', rfl⟩ | ⟨hm', hc', hw⟩ <;> simp_all
  exact hA.var name v w hv hw

theorem knows_of_variableNamed {name : String} {v : TypeVariable}
    (h : (variableNamed sur name).Ends A (some v)) : sur.Knows A v := by
  rw [Surroundings.Knows, symbol_of_variableNamed hA h]
  exact h

end Definite

mutual

theorem shape_wellFormed (hA : A.Definite) :
    (t : TypeTree) → ∀ {s}, (shape sur t).Ends A (some s) → Shape.WellFormed (sur.Knows A) s
  | .base b, s, h => by
    obtain rfl := Option.some.inj h
    exact Shape.wellFormed_plain _
  | .array c, s, h => by
    rw [shape] at h
    obtain ⟨c', hc, hs⟩ := ends_bind_some.mp h
    obtain rfl := Option.some.inj hs
    exact (shape_wellFormed hA c hc).arrayOf
  | .classType c, s, h => by
    rw [shape] at h
    exact classShape_wellFormed hA c h
  | .variable name, s, h => by
    rw [shape] at h
    obtain ⟨v, hv, hs⟩ := ends_bind_some.mp h
    obtain rfl := Option.some.inj hs
    exact Shape.wellFormed_reference (knows_of_variableNamed hA hv)

theorem classShape_wellFormed (hA : A.Definite) :
    (c : ClassTree) → ∀ {s}, (classShape sur c).Ends A (some s) →
    Shape.WellFormed (sur.Knows A) s
  | .top package name as, s, h => by
    rw [classShape] at h
    obtain ⟨raw, _, h⟩ := ends_bind_some.mp h
    obtain ⟨as', has, hs⟩ := ends_bind_some.mp h
    obtain rfl := Option.some.inj hs
    exact wellFormed_applyTo (by simp) (arguments_wellFormed hA as has)
  | .member outer name as, s, h => by
    rw [classShape] at h
    obtain ⟨owner, howner, h⟩ := ends_bind_some.mp h
    obtain ⟨raw, _, h⟩ := ends_bind_some.mp h
    obtain ⟨as', has, hs⟩ := ends_bind_some.mp h
    obtain rfl := Option.some.inj hs
    exact wellFormed_applyTo (by simpa using classShape_wellFormed hA outer howner)
      (arguments_wellFormed hA as has)

theorem arguments_wellFormed (hA : A.Definite) :
    (as : List Argument) → ∀ {ts}, (arguments sur as).Ends A (some ts) →
    ∀ t ∈ ts, Shape.WellFormedArgument (sur.Knows A) t
  | [], ts, h => by
    rw [arguments] at h
    obtain rfl := Option.some.inj h
    simp
  | a :: as, ts, h => by
    rw [arguments] at h
    obtain ⟨t, ht, h⟩ := ends_bind_some.mp h
    obtain ⟨ts', hts, hs⟩ := ends_bind_some.mp h
    obtain rfl := Option.some.inj hs
    intro u hu
    rcases List.mem_cons.mp hu with rfl | hu
    · exact argument_wellFormed hA a ht
    · exact arguments_wellFormed hA as hts u hu

theorem argument_wellFormed (hA : A.Definite) :
    (a : Argument) → ∀ {t}, (argument sur a).Ends A (some t) →
    Shape.WellFormedArgument (sur.Knows A) t
  | .any, t, h => by
    rw [argument] at h
    obtain rfl := Option.some.inj h
    exact (Shape.wellFormed_plain _).upper
  | .exact b, t, h => by
    rw [argument] at h
    exact (shape_wellFormed hA b h).argument
  | .extends b, t, h => by
    rw [argument] at h
    obtain ⟨u, hu, hs⟩ := ends_bind_some.mp h
    obtain rfl := Option.some.inj hs
    exact (shape_wellFormed hA b hu).upper
  | .super b, t, h => by
    rw [argument] at h
    obtain ⟨u, hu, hs⟩ := ends_bind_some.mp h
    obtain rfl := Option.some.inj hs
    exact (shape_wellFormed hA b hu).lower

end

end Script

end JvmTypes.Loader
