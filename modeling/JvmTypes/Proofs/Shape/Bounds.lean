import JvmTypes.Declaration
import JvmTypes.Proofs.Shape.Structure
/-!
# Bounds of declared variables

A declared variable with its bounds passed through a function, and the erasure that its first bound
gives it.
-/
namespace JvmTypes.TypeVarDecl

def mapBounds (f : Shape → Shape) (v : TypeVarDecl) : TypeVarDecl := ⟨v.symbol, v.bounds.map f⟩

theorem find?_mapBounds (f : Shape → Shape) (symbol : String) (vars : List TypeVarDecl) :
    find? symbol (vars.map (mapBounds f)) = (find? symbol vars).map (mapBounds f) := by
  rw [find?, List.find?_map]
  rfl

theorem firstErasure_mapBounds {f : Shape → Shape} {g : Erased → Erased} {v : TypeVarDecl}
    (hf : ∀ b ∈ v.bounds, (f b).erasure? = b.erasure?.map g) :
    (v.mapBounds f).bounds.head?.bind Shape.erasure? =
      (v.bounds.head?.bind Shape.erasure?).map g := by
  rw [mapBounds]
  cases hbounds : v.bounds with
  | nil => rfl
  | cons b bs =>
    rw [List.map_cons, List.head?_cons, List.head?_cons, Option.bind_some, Option.bind_some,
      hf b (by simp [hbounds])]

/-- What `f` does to the erasures of the bounds happens to the erasure of the variable. The root
class must stay if it is no bound that gives the erasure. -/
theorem erasure_mapBounds_map {f : Shape → Shape} {g : Erased → Erased} {v : TypeVarDecl}
    (hf : ∀ b ∈ v.bounds, (f b).erasure? = b.erasure?.map g)
    (hroot : g .object = .object ∨ v.bounds.head?.bind Shape.erasure? ≠ none) :
    (v.mapBounds f).erasure = g v.erasure := by
  rw [erasure, erasure, firstErasure_mapBounds hf]
  cases he : v.bounds.head?.bind Shape.erasure? with
  | none => exact (hroot.resolve_right fun h => h he).symm
  | some e => rfl

theorem erasure_mapBounds {f : Shape → Shape} (h : ∀ t, (f t).erasure? = t.erasure?)
    (v : TypeVarDecl) :
    (v.mapBounds f).erasure = v.erasure :=
  erasure_mapBounds_map (g := id) (fun b _ => by rw [h, Option.map_id, id]) (Or.inl rfl)

theorem mem_classes_erasure {v : TypeVarDecl} {id : ClassId} (h : id ∈ v.erasure.classes) :
    id = .object ∨ ∃ b ∈ v.bounds, id ∈ b.classes := by
  rw [erasure] at h
  cases he : v.bounds.head?.bind Shape.erasure? with
  | none =>
    rw [he] at h
    exact Or.inl (by simpa [Erased.object, Erased.classes] using h)
  | some e =>
    rw [he] at h
    obtain ⟨b, hb, hbe⟩ := Option.bind_eq_some_iff.mp he
    exact Or.inr ⟨b, List.mem_of_mem_head? hb, Shape.mem_classes_of_erasure? hbe h⟩

end JvmTypes.TypeVarDecl
