import JvmTypes.Annotation
import JvmTypes.Method.Token
import Mathlib.Data.Bool.Basic
/-!
# Values that equal themselves

Annotations compare their constants as values, and a NaN differs from itself. It is the only reason
for an annotation, and for a token, to differ from itself.
-/
namespace JvmTypes

namespace Constant

def isNaN : Constant → Bool
  | .float bits => isNaN32 bits
  | .double bits => isNaN64 bits
  | _ => false

theorem same_self {c : Constant} (h : c.isNaN = false) : c.same c = true := by
  cases c with
  | float bits =>
    have hbits : isNaN32 bits = false := h
    simp [same, sameFloat, hbits]
  | double bits =>
    have hbits : isNaN64 bits = false := h
    simp [same, sameDouble, hbits]
  | _ => simp [same]

end Constant

mutual

/-- Some constant of the value is a NaN. -/
def ElementValue.hasNaN : ElementValue → Bool
  | .constant c => c.isNaN
  | .enum .. | .classLiteral _ => false
  | .nested a => a.hasNaN
  | .array values => ElementValue.anyHasNaN values

def ElementValue.anyHasNaN : List ElementValue → Bool
  | [] => false
  | v :: vs => v.hasNaN || ElementValue.anyHasNaN vs

def Annotation.hasNaN : Annotation → Bool
  | .mk _ elements => Annotation.elementsHaveNaN elements

def Annotation.elementsHaveNaN : List (String × ElementValue) → Bool
  | [] => false
  | (_, v) :: es => v.hasNaN || Annotation.elementsHaveNaN es

end

open Annotation (elementsHaveNaN hasNaN same sameElements)

mutual

theorem ElementValue.same_self : (v : ElementValue) → v.hasNaN = false → v.same v = true
  | .constant c, h => by
    rw [ElementValue.same]
    exact Constant.same_self (by rwa [ElementValue.hasNaN] at h)
  | .enum d n, _ => by simp [ElementValue.same]
  | .classLiteral d, _ => by simp [ElementValue.same]
  | .nested a, h => by
    rw [ElementValue.same]
    exact Annotation.same_self a (by rwa [ElementValue.hasNaN] at h)
  | .array values, h => by
    rw [ElementValue.same]
    exact ElementValue.sameList_self values (by rwa [ElementValue.hasNaN] at h)

theorem ElementValue.sameList_self : (vs : List ElementValue) → ElementValue.anyHasNaN vs = false →
    ElementValue.sameList vs vs = true
  | [], _ => by rw [ElementValue.sameList]
  | v :: vs, h => by
    obtain ⟨hv, hvs⟩ := Bool.or_eq_false_iff.mp (ElementValue.anyHasNaN.eq_2 v vs ▸ h)
    rw [ElementValue.sameList, v.same_self hv, ElementValue.sameList_self vs hvs]
    rfl

theorem Annotation.same_self : (a : Annotation) → a.hasNaN = false → a.same a = true
  | .mk d elements, h => by
    rw [same, Annotation.sameElements_self elements (by rwa [hasNaN] at h)]
    simp

theorem Annotation.sameElements_self : (es : List (String × ElementValue)) →
    Annotation.elementsHaveNaN es = false → Annotation.sameElements es es = true
  | [], _ => by rw [sameElements]
  | (n, v) :: es, h => by
    rw [elementsHaveNaN] at h
    obtain ⟨hv, hes⟩ := Bool.or_eq_false_iff.mp h
    rw [sameElements, v.same_self hv, Annotation.sameElements_self es hes]
    simp

end

theorem Annotation.sameAll_self {as : List Annotation} (h : ∀ a ∈ as, a.hasNaN = false) :
    Annotation.sameAll as as = true := by
  induction as with
  | nil => rfl
  | cons a as ih =>
    rw [sameAll, a.same_self (h a (by simp)), ih fun b hb => h b (by simp [hb])]
    rfl

theorem ElementValue.sameOption_self {v : Option ElementValue}
    (h : v.any ElementValue.hasNaN = false) :
    ElementValue.sameOption v v = true := by
  cases v with
  | none => rfl
  | some w => exact w.same_self h

def MethodDecl.hasNaN (m : MethodDecl) : Bool :=
  m.annotations.any Annotation.hasNaN || m.defaultValue.any ElementValue.hasNaN

/-- Without a NaN a token is identical to itself. -/
theorem MethodToken.isIdenticalTo_self {t : MethodToken} (h : t.toDecl.hasNaN = false) :
    t.isIdenticalTo t = true := by
  obtain ⟨hannotations, hdefault⟩ := Bool.or_eq_false_iff.mp h
  have hall : Annotation.sameAll t.annotations t.annotations = true :=
    Annotation.sameAll_self (by simpa [MethodToken.toDecl] using hannotations)
  have hvalue : ElementValue.sameOption t.defaultValue t.defaultValue = true :=
    ElementValue.sameOption_self hdefault
  simp [MethodToken.isIdenticalTo, hall, hvalue]

end JvmTypes
