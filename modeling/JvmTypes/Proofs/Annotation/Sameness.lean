import JvmTypes.Proofs.Annotation.Reflexivity
import Mathlib.Tactic.Tauto
/-!
# Values that are the same

Two values are the same if no constant in them is a NaN and they are equal once every zero has lost
its sign. Where no NaN occurs the comparison of values is thus an equality, of what is left of them.
-/
namespace JvmTypes

namespace Constant

section Zeros

variable {α : Type} {isZero : α → Bool} {zero a b : α}

def oneZero (isZero : α → Bool) (zero bits : α) : α := if isZero bits then zero else bits

theorem oneZero_eq_iff (hzero : isZero zero = true) :
    oneZero isZero zero a = oneZero isZero zero b ↔
      a = b ∨ (isZero a = true ∧ isZero b = true) := by
  by_cases ha : isZero a = true <;> by_cases hb : isZero b = true
  · simp [oneZero, ha, hb]
  · have hne : zero ≠ b := by
      rintro rfl
      exact hb hzero
    have hab : a ≠ b := by
      rintro rfl
      exact hb ha
    simp [oneZero, ha, hb, hne, hab]
  · have hne : a ≠ zero := by
      rintro rfl
      exact ha hzero
    have hab : a ≠ b := by
      rintro rfl
      exact ha hb
    simp [oneZero, ha, hb, hne, hab]
  · simp [oneZero, ha, hb]

end Zeros

def isZero32 (bits : UInt32) : Bool := bits &&& 0x7fffffff == 0

def isZero64 (bits : UInt64) : Bool := bits &&& 0x7fffffffffffffff == 0

theorem areZero32_iff (a b : UInt32) :
    (a ||| b) &&& 0x7fffffff = 0 ↔ isZero32 a = true ∧ isZero32 b = true := by
  simp only [isZero32, beq_iff_eq, ← UInt32.toBitVec_inj, UInt32.toBitVec_and, UInt32.toBitVec_or,
    BitVec.and_or_distrib_right]
  exact BitVec.or_eq_zero_iff

theorem areZero64_iff (a b : UInt64) :
    (a ||| b) &&& 0x7fffffffffffffff = 0 ↔ isZero64 a = true ∧ isZero64 b = true := by
  simp only [isZero64, beq_iff_eq, ← UInt64.toBitVec_inj, UInt64.toBitVec_and, UInt64.toBitVec_or,
    BitVec.and_or_distrib_right]
  exact BitVec.or_eq_zero_iff

def unsigned : Constant → Constant
  | .float bits => .float (oneZero isZero32 0 bits)
  | .double bits => .double (oneZero isZero64 0 bits)
  | c => c

theorem sameFloat_iff (a b : UInt32) : sameFloat a b = true ↔
    isNaN32 a = false ∧ isNaN32 b = false ∧ oneZero isZero32 0 a = oneZero isZero32 0 b := by
  rw [oneZero_eq_iff (by decide), ← areZero32_iff]
  simp [sameFloat, and_assoc]

theorem sameDouble_iff (a b : UInt64) : sameDouble a b = true ↔
    isNaN64 a = false ∧ isNaN64 b = false ∧ oneZero isZero64 0 a = oneZero isZero64 0 b := by
  rw [oneZero_eq_iff (by decide), ← areZero64_iff]
  simp [sameDouble, and_assoc]

theorem same_iff (c d : Constant) :
    c.same d = true ↔ c.isNaN = false ∧ d.isNaN = false ∧ c.unsigned = d.unsigned := by
  cases c with
  | float a =>
    cases d with
    | float b => simpa [same, isNaN, unsigned] using sameFloat_iff a b
    | _ => simp [same, unsigned]
  | double a =>
    cases d with
    | double b => simpa [same, isNaN, unsigned] using sameDouble_iff a b
    | _ => simp [same, unsigned]
  | _ => cases d <;> simp [same, isNaN, unsigned]

end Constant

mutual

/-- The value without the signs of its zeros. -/
def ElementValue.unsigned : ElementValue → ElementValue
  | .constant c => .constant c.unsigned
  | .enum descriptor name => .enum descriptor name
  | .classLiteral descriptor => .classLiteral descriptor
  | .nested a => .nested a.unsigned
  | .array values => .array (ElementValue.unsignedList values)

def ElementValue.unsignedList : List ElementValue → List ElementValue
  | [] => []
  | v :: vs => v.unsigned :: ElementValue.unsignedList vs

def Annotation.unsigned : Annotation → Annotation
  | .mk descriptor elements => .mk descriptor <| Annotation.unsignedElements elements

def Annotation.unsignedElements : List (String × ElementValue) → List (String × ElementValue)
  | [] => []
  | (name, v) :: es => (name, v.unsigned) :: Annotation.unsignedElements es

end

open Annotation (elementsHaveNaN hasNaN same sameElements unsigned unsignedElements)

mutual

theorem ElementValue.same_iff : (v w : ElementValue) →
    (v.same w = true ↔ v.hasNaN = false ∧ w.hasNaN = false ∧ v.unsigned = w.unsigned)
  | .constant c, w => by
    cases w with
    | constant d =>
      simpa [ElementValue.same, ElementValue.hasNaN, ElementValue.unsigned] using c.same_iff d
    | _ => simp [ElementValue.same, ElementValue.unsigned]
  | .enum d n, w => by
    cases w <;> simp [ElementValue.same, ElementValue.hasNaN, ElementValue.unsigned]
  | .classLiteral d, w => by
    cases w <;> simp [ElementValue.same, ElementValue.hasNaN, ElementValue.unsigned]
  | .nested a, w => by
    cases w with
    | nested b =>
      simpa [ElementValue.same, ElementValue.hasNaN, ElementValue.unsigned] using a.same_iff b
    | _ => simp [ElementValue.same, ElementValue.unsigned]
  | .array vs, w => by
    cases w with
    | array ws =>
      simpa [ElementValue.same, ElementValue.hasNaN, ElementValue.unsigned] using
        ElementValue.sameList_iff vs ws
    | _ => simp [ElementValue.same, ElementValue.unsigned]

theorem ElementValue.sameList_iff : (vs ws : List ElementValue) →
    (ElementValue.sameList vs ws = true ↔ ElementValue.anyHasNaN vs = false ∧
      ElementValue.anyHasNaN ws = false ∧
      ElementValue.unsignedList vs = ElementValue.unsignedList ws)
  | [], ws => by
    cases ws <;> simp [ElementValue.sameList, ElementValue.anyHasNaN, ElementValue.unsignedList]
  | v :: vs, ws => by
    cases ws with
    | nil => simp [ElementValue.sameList, ElementValue.unsignedList]
    | cons w ws =>
      have hv := v.same_iff w
      have hvs := ElementValue.sameList_iff vs ws
      simp only [ElementValue.sameList, ElementValue.anyHasNaN, ElementValue.unsignedList,
        Bool.and_eq_true, Bool.or_eq_false_iff, List.cons.injEq, hv, hvs]
      tauto

theorem Annotation.same_iff : (a b : Annotation) →
    (a.same b = true ↔ a.hasNaN = false ∧ b.hasNaN = false ∧ a.unsigned = b.unsigned)
  | .mk d es, .mk d' fs => by
    have hes := Annotation.sameElements_iff es fs
    simp only [same, hasNaN, unsigned, Bool.and_eq_true, decide_eq_true_eq, Annotation.mk.injEq,
      hes]
    tauto

theorem Annotation.sameElements_iff : (es fs : List (String × ElementValue)) →
    (sameElements es fs = true ↔ elementsHaveNaN es = false ∧ elementsHaveNaN fs = false ∧
      unsignedElements es = unsignedElements fs)
  | [], fs => by
    cases fs <;> simp [sameElements, elementsHaveNaN, unsignedElements]
  | (n, v) :: es, fs => by
    cases fs with
    | nil => simp [sameElements, unsignedElements]
    | cons f fs =>
      obtain ⟨m, w⟩ := f
      have hv := v.same_iff w
      have hes := Annotation.sameElements_iff es fs
      simp only [sameElements, elementsHaveNaN, unsignedElements, Bool.and_eq_true,
        Bool.or_eq_false_iff, decide_eq_true_eq, List.cons.injEq, Prod.mk.injEq, hv, hes]
      tauto

end

theorem Annotation.sameAll_iff (as bs : List Annotation) : Annotation.sameAll as bs = true ↔
    as.any Annotation.hasNaN = false ∧ bs.any Annotation.hasNaN = false ∧
      as.map Annotation.unsigned = bs.map Annotation.unsigned := by
  induction as generalizing bs with
  | nil => cases bs <;> simp [sameAll]
  | cons a as ih =>
    cases bs with
    | nil => simp [sameAll]
    | cons b bs =>
      simp only [sameAll, Bool.and_eq_true, a.same_iff, ih, List.any_cons,
        Bool.or_eq_false_iff, List.map_cons, List.cons.injEq]
      tauto

theorem ElementValue.sameOption_iff (v w : Option ElementValue) :
    ElementValue.sameOption v w = true ↔ v.any ElementValue.hasNaN = false ∧
      w.any ElementValue.hasNaN = false ∧
      v.map ElementValue.unsigned = w.map ElementValue.unsigned := by
  cases v <;> cases w <;> simp [ElementValue.sameOption, ElementValue.same_iff]

end JvmTypes
