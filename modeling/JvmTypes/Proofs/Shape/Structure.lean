import JvmTypes.Shape
import Mathlib.Data.List.Forall2
/-!
# The structure of shapes

Induction over shapes with a hypothesis for every argument and for the owner, the parts that occur
in a shape, and the shapes that hold wildcards only where a declaration may write them.
-/
namespace JvmTypes

def Erased.classes : Erased → List ClassId
  | .cls id => [id]
  | .array c => c.classes
  | .void | .primitive _ => []

theorem Erased.replaceClass_eq_self {a b : ClassId} {e : Erased} (h : a ∉ e.classes) :
    e.replaceClass a b = e := by
  induction e with
  | void => rfl
  | primitive _ => rfl
  | cls id =>
    have hne : id ≠ a := fun he => h (by simp [Erased.classes, he])
    simp [Erased.replaceClass, hne]
  | array c ih => simp [Erased.replaceClass, ih h]

theorem forall₂_map_self {α β : Type} {R : α → β → Prop} {f : α → β} {l : List α}
    (h : ∀ a ∈ l, R a (f a)) : List.Forall₂ R l (l.map f) :=
  List.forall₂_map_right_iff.mpr (List.forall₂_same.mpr h)

namespace Shape

@[induction_eliminator]
theorem induct {motive : Shape → Prop}
    (plain : ∀ e, motive (.plain e))
    (array : ∀ c, motive c → motive (.array c))
    (applied : ∀ raw as o, (∀ a ∈ as, motive a) → (∀ p ∈ o, motive p) → motive (.applied raw as o))
    (upper : ∀ b, motive b → motive (.upper b))
    (lower : ∀ b, motive b → motive (.lower b))
    (reference : ∀ v, motive (.variable v))
    (t : Shape) : motive t := by
  apply Shape.rec (motive_1 := motive) (motive_2 := fun as => ∀ a ∈ as, motive a)
    (motive_3 := fun o => ∀ p ∈ o, motive p) plain array applied upper lower reference
  · simp
  · intro a as ha has b hb
    rcases List.mem_cons.mp hb with rfl | hb
    · exact ha
    · exact has b hb
  · simp
  · intro p hp q hq
    obtain rfl := Option.mem_some.mp hq
    exact hp

section Parts

variable (ofPlain : Erased → List α) (ofRaw : ClassId → List α) (ofVariable : TypeVariable → List α)

mutual

/-- What the parts of a shape contribute, an owner before the arguments. -/
def gather : Shape → List α
  | .plain e => ofPlain e
  | .array c => gather c
  | .applied raw as o => ofRaw raw ++ gatherOwner o ++ gatherArguments as
  | .upper b | .lower b => gather b
  | .variable v => ofVariable v

def gatherArguments : List Shape → List α
  | [] => []
  | a :: as => gather a ++ gatherArguments as

def gatherOwner : Option Shape → List α
  | none => []
  | some o => gather o

end

theorem gatherArguments_eq_flatMap (as : List Shape) :
    gatherArguments ofPlain ofRaw ofVariable as = as.flatMap (gather ofPlain ofRaw ofVariable) := by
  induction as with
  | nil => simp [gatherArguments]
  | cons a as ih => simp [gatherArguments, ih]

theorem mem_gather_applied {raw as o} {x : α} :
    x ∈ gather ofPlain ofRaw ofVariable (.applied raw as o) ↔
      x ∈ ofRaw raw ∨ (∃ p ∈ o, x ∈ gather ofPlain ofRaw ofVariable p) ∨
        ∃ a ∈ as, x ∈ gather ofPlain ofRaw ofVariable a := by
  cases o <;> simp [gather, gatherOwner, gatherArguments_eq_flatMap]

end Parts

def references : Shape → List TypeVariable := gather (fun _ => []) (fun _ => []) fun v => [v]

def plains : Shape → List Erased := gather (fun e => [e]) (fun _ => []) fun _ => []

def raws : Shape → List ClassId := gather (fun _ => []) (fun id => [id]) fun _ => []

/-- Every class that the shape mentions, also in the erasure of a variable. -/
def classes (t : Shape) : List ClassId :=
  t.plains.flatMap Erased.classes ++ t.raws ++ t.references.flatMap (·.erasure.classes)

@[simp] theorem references_plain (e : Erased) : (plain e).references = [] := rfl
@[simp] theorem references_array (c : Shape) : (array c).references = c.references := rfl
@[simp] theorem references_upper (b : Shape) : (upper b).references = b.references := rfl
@[simp] theorem references_lower (b : Shape) : (lower b).references = b.references := rfl
@[simp] theorem references_reference (v : TypeVariable) : (Shape.variable v).references = [v] := rfl

@[simp] theorem mem_references_applied {raw as o} {v : TypeVariable} :
    v ∈ (applied raw as o).references ↔ (∃ p ∈ o, v ∈ p.references) ∨
      ∃ a ∈ as, v ∈ a.references := by
  simp [references, mem_gather_applied]

theorem references_applied (raw : ClassId) (as : List Shape) (o : Option Shape) :
    (applied raw as o).references = o.toList.flatMap references ++ as.flatMap references := by
  cases o <;> simp [references, gather, gatherOwner, gatherArguments_eq_flatMap]

@[simp] theorem references_arrayOf (c : Shape) : (arrayOf c).references = c.references := by
  cases c <;> simp [arrayOf]

@[simp] theorem plains_plain (e : Erased) : (plain e).plains = [e] := rfl
@[simp] theorem plains_array (c : Shape) : (array c).plains = c.plains := rfl
@[simp] theorem plains_upper (b : Shape) : (upper b).plains = b.plains := rfl
@[simp] theorem plains_lower (b : Shape) : (lower b).plains = b.plains := rfl

@[simp] theorem mem_plains_applied {raw as o} {e : Erased} :
    e ∈ (applied raw as o).plains ↔ (∃ p ∈ o, e ∈ p.plains) ∨ ∃ a ∈ as, e ∈ a.plains := by
  simp [plains, mem_gather_applied]

@[simp] theorem raws_array (c : Shape) : (array c).raws = c.raws := rfl
@[simp] theorem raws_upper (b : Shape) : (upper b).raws = b.raws := rfl
@[simp] theorem raws_lower (b : Shape) : (lower b).raws = b.raws := rfl

@[simp] theorem mem_raws_applied {raw as o} {id : ClassId} :
    id ∈ (applied raw as o).raws ↔ id = raw ∨ (∃ p ∈ o, id ∈ p.raws) ∨ ∃ a ∈ as, id ∈ a.raws := by
  simp [raws, mem_gather_applied]

theorem mem_classes {t : Shape} {id : ClassId} :
    id ∈ t.classes ↔ (∃ e ∈ t.plains, id ∈ e.classes) ∨ id ∈ t.raws ∨
      ∃ v ∈ t.references, id ∈ v.erasure.classes := by
  simp [classes]

@[simp] theorem classes_plain (e : Erased) : (plain e).classes = e.classes := by
  simp [classes, raws, gather]

@[simp] theorem classes_array (c : Shape) : (array c).classes = c.classes := rfl
@[simp] theorem classes_upper (b : Shape) : (upper b).classes = b.classes := rfl
@[simp] theorem classes_lower (b : Shape) : (lower b).classes = b.classes := rfl

@[simp] theorem classes_reference (v : TypeVariable) :
    (Shape.variable v).classes = v.erasure.classes := by
  simp [classes, plains, raws, gather]

@[simp] theorem classes_arrayOf (c : Shape) : (arrayOf c).classes = c.classes := by
  cases c <;> simp [arrayOf, Erased.classes]

@[simp] theorem mem_classes_applied {raw as o} {id : ClassId} :
    id ∈ (applied raw as o).classes ↔ id = raw ∨ (∃ p ∈ o, id ∈ p.classes) ∨
      ∃ a ∈ as, id ∈ a.classes := by
  simp only [mem_classes, mem_plains_applied, mem_raws_applied, mem_references_applied]
  grind

mutual

/-- Wildcards stand only directly as type arguments. -/
def isRegular : Shape → Bool
  | .plain _ | .variable _ => true
  | .array c => c.isRegular
  | .applied _ as o => areRegularArguments as && isRegularOwner o
  | .upper _ | .lower _ => false

def areRegularArguments : List Shape → Bool
  | [] => true
  | .upper b :: as => b.isRegular && areRegularArguments as
  | .lower b :: as => b.isRegular && areRegularArguments as
  | a :: as => a.isRegular && areRegularArguments as

def isRegularOwner : Option Shape → Bool
  | none => true
  | some o => o.isRegular

end

/-- Regular in an argument position, where the shape may be a wildcard. -/
def isRegularArgument : Shape → Bool
  | .upper b | .lower b => b.isRegular
  | t => t.isRegular

@[simp] theorem areRegularArguments_iff (as : List Shape) :
    areRegularArguments as = true ↔ ∀ a ∈ as, a.isRegularArgument = true := by
  induction as with
  | nil => simp [areRegularArguments]
  | cons a as ih => cases a <;> simp [areRegularArguments, isRegularArgument, ih]

@[simp] theorem isRegular_applied {raw as o} :
    (applied raw as o).isRegular = true ↔ (∀ a ∈ as, a.isRegularArgument = true) ∧
      ∀ p ∈ o, p.isRegular = true := by
  cases o <;> simp [isRegular, isRegularOwner]

theorem isRegular.argument {t : Shape} (h : t.isRegular = true) : t.isRegularArgument = true := by
  cases t <;> simp_all [isRegular, isRegularArgument]

@[simp] theorem isRegular_arrayOf (c : Shape) : (arrayOf c).isRegular = c.isRegular := by
  cases c <;> simp [arrayOf, isRegular]

theorem erasure?_of_isRegular {t : Shape} (h : t.isRegular = true) : ∃ e, t.erasure? = some e := by
  induction t with
  | plain e => exact ⟨e, rfl⟩
  | array c ih =>
    obtain ⟨e, he⟩ := ih (by simpa [isRegular] using h)
    exact ⟨.array e, by simp [erasure?, he]⟩
  | applied raw as o _ _ => exact ⟨.cls raw, rfl⟩
  | upper b _ => simp [isRegular] at h
  | lower b _ => simp [isRegular] at h
  | reference v => exact ⟨v.erasure, rfl⟩

@[simp] theorem erasure?_arrayOf (c : Shape) : (arrayOf c).erasure? = c.erasure?.map .array := by
  cases c <;> simp [arrayOf, erasure?]

theorem mem_classes_of_erasure? {t : Shape} {e : Erased} {id : ClassId} (h : t.erasure? = some e)
    (hid : id ∈ e.classes) : id ∈ t.classes := by
  induction t generalizing e with
  | plain e' =>
    obtain rfl := Option.some.inj h
    exact mem_classes.mpr (Or.inl ⟨e', by simp, hid⟩)
  | array c ih =>
    obtain ⟨e', he, rfl⟩ := Option.map_eq_some_iff.mp h
    simpa [mem_classes] using mem_classes.mp (ih he hid)
  | applied raw as o _ _ =>
    obtain rfl := Option.some.inj h
    obtain rfl : id = raw := by simpa [Erased.classes] using hid
    exact mem_classes.mpr (Or.inr (Or.inl (by simp)))
  | upper b _ => simp [erasure?] at h
  | lower b _ => simp [erasure?] at h
  | reference v =>
    obtain rfl := Option.some.inj h
    exact mem_classes.mpr (Or.inr (Or.inr ⟨v, by simp, hid⟩))

end Shape

end JvmTypes
