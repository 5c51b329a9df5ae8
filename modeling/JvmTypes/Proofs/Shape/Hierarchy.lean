import JvmTypes.Hierarchy
import JvmTypes.Proofs.Chain
import JvmTypes.Proofs.Shape.Substitution
import JvmTypes.Proofs.Store.Growth
/-!
# Hierarchies as chains

The hierarchy of a shape lists the chain of its super types. However the arguments change on the
way, the classes of these types follow the links from class to super class, so the hierarchy ends
where that chain does.
-/
namespace JvmTypes

namespace Shape

def class? : Shape → Option ClassId
  | .plain (.cls id) => some id
  | .applied raw _ _ => some raw
  | .plain _ | .array _ | .upper _ | .lower _ | .variable _ => none

theorem class?_ofClass (id : ClassId) : (ofClass id).class? = some id := rfl

theorem class?_seenThrough (binding : Option Binding) {t : Shape} {id : ClassId}
    (h : t.class? = some id) : (t.seenThrough binding).class? = some id := by
  cases binding with
  | none => exact h
  | some b =>
    cases t with
    | plain e => exact h
    | applied raw as o =>
      rw [seenThrough, subst_applied]
      exact h
    | array c | upper c | lower c | «variable» v => cases h

end Shape

def Store.superclass (s : Store) (id : ClassId) : Option ClassId :=
  (s.get id).superclass.bind Shape.class?

namespace Shape

variable {s : Store} {t u : Shape} {id : ClassId}

theorem parent?_of_class? (h : t.class? = some id) :
    ∃ binding, t.parent? s = (s.get id).superclass.map (seenThrough binding) := by
  cases t with
  | plain e =>
    cases e with
    | cls c =>
      obtain rfl := Option.some.inj h
      exact ⟨none, rfl⟩
    | void | primitive b | array c => cases h
  | applied raw as o =>
    obtain rfl := Option.some.inj h
    exact ⟨some (.ofShape s (.applied raw as o)), rfl⟩
  | array c | upper c | lower c | «variable» v => cases h

theorem parent?_of_not_class (h : t.class? = none) :
    t.parent? s = none ∨ t.parent? s = some .object := by
  cases t with
  | plain e =>
    cases e with
    | cls c => cases h
    | void | primitive b => exact Or.inl rfl
    | array c => exact Or.inr rfl
  | applied raw as o => cases h
  | array c => exact Or.inr rfl
  | upper c | lower c | «variable» v => exact Or.inl rfl

theorem length_hierarchy_le {n : Nat} (h : follow (parent? s) n t = none) (m : Nat) :
    (t.hierarchy s m).length ≤ n := by
  induction n generalizing t m with
  | zero => cases h
  | succ n ih =>
    cases m with
    | zero =>
      rw [hierarchy, List.length_nil]
      omega
    | succ m =>
      rw [hierarchy, List.length_cons]
      cases hp : t.parent? s with
      | none =>
        rw [Option.map_none, Option.getD_none, List.length_nil]
        omega
      | some p =>
        rw [follow_succ_of_some hp] at h
        have htail := ih h m
        rw [Option.map_some, Option.getD_some]
        omega

theorem length_hierarchy_eq {n : Nat} (h : follow (parent? s) n t ≠ none) :
    (t.hierarchy s (n + 1)).length = n + 1 := by
  induction n generalizing t with
  | zero =>
    rw [hierarchy, List.length_cons]
    cases t.parent? s <;> rfl
  | succ n ih =>
    cases hp : t.parent? s with
    | none =>
      rw [follow, hp] at h
      exact absurd rfl h
    | some p =>
      rw [follow_succ_of_some hp] at h
      rw [hierarchy, List.length_cons, hp, Option.map_some, Option.getD_some, ih h]

theorem length_hierarchy_le_iff {n : Nat} :
    (∀ m, (t.hierarchy s m).length ≤ n) ↔ follow (parent? s) n t = none := by
  constructor
  · intro h
    by_contra hgoes
    have hlong := h (n + 1)
    rw [length_hierarchy_eq hgoes] at hlong
    omega
  · exact fun h m => length_hierarchy_le h m

theorem length_hierarchy_of_endless (h : ¬ ChainEnds (parent? s) t) (m : Nat) :
    (t.hierarchy s m).length = m := by
  cases m with
  | zero => rfl
  | succ m => exact length_hierarchy_eq fun hnone => h ⟨m, hnone⟩

end Shape

namespace Store

/-- The root class is there and has no super class, and the super classes that the store declares
are class types in the store. -/
structure Rooted (s : Store) : Prop where
  known : ClassId.object.index < s.size
  object : (s.get .object).superclass = none
  closed : ∀ id, id.index < s.size → ∀ t, (s.get id).superclass = some t →
    ∃ c, t.class? = some c ∧ c.index < s.size

variable {s : Store} (hs : s.Rooted) {id : ClassId}
include hs

theorem Rooted.index_lt (hid : id.index < s.size) {c : ClassId}
    (h : Relation.ReflTransGen (Linked s.superclass) id c) : c.index < s.size := by
  induction h with
  | refl => exact hid
  | @tail b c _ hlink ih =>
    obtain ⟨t, ht, hc⟩ := Option.bind_eq_some_iff.mp hlink
    obtain ⟨c', hc', hlt⟩ := hs.closed b ih t ht
    obtain rfl := Option.some.inj (hc.symm.trans hc')
    exact hlt

theorem Rooted.not_runsInCircle_iff (hid : id.index < s.size) :
    ChainEnds s.superclass id ↔ ¬ RunsInCircle s.superclass id :=
  chainEnds_iff_not_runsInCircle fun _ hreach _ => hs.index_lt hid hreach

end Store

namespace Shape

variable {s : Store} (hs : s.Rooted) {t : Shape} {id : ClassId}
include hs

/-- The classes of the super types are those that the chain of super classes goes through. -/
theorem follow_parent?_eq_none_iff (hid : id.index < s.size) (ht : t.class? = some id) {n : Nat} :
    follow (parent? s) n t = none ↔ follow s.superclass n id = none := by
  induction n generalizing t id with
  | zero => simp [follow]
  | succ n ih =>
    obtain ⟨binding, hparent⟩ := parent?_of_class? (s := s) ht
    cases hsuper : (s.get id).superclass with
    | none =>
      rw [hsuper, Option.map_none] at hparent
      rw [follow, follow, hparent, Store.superclass, hsuper]
      simp
    | some u =>
      obtain ⟨c, hc, hlt⟩ := hs.closed id hid u hsuper
      rw [hsuper, Option.map_some] at hparent
      have hlink : s.superclass id = some c := by
        rw [Store.superclass, hsuper, Option.bind_some, hc]
      rw [follow_succ_of_some hparent, follow_succ_of_some hlink]
      exact ih hlt (class?_seenThrough binding hc)

theorem follow_parent?_of_not_class (ht : t.class? = none) : follow (parent? s) 2 t = none := by
  have hobject : parent? s .object = none := by
    obtain ⟨binding, hparent⟩ := parent?_of_class? (s := s) (class?_ofClass .object)
    rw [hs.object] at hparent
    exact hparent
  rcases parent?_of_not_class (s := s) ht with hnone | hsome
  · rw [follow, hnone, Option.bind_none]
  · rw [follow_succ_of_some hsome, follow, hobject, Option.bind_none]

theorem hierarchy_ends_iff (hin : ∀ id, t.class? = some id → id.index < s.size) :
    (∃ n, ∀ m, (t.hierarchy s m).length ≤ n) ↔
      ∀ id, t.class? = some id → ¬ RunsInCircle s.superclass id := by
  simp only [length_hierarchy_le_iff]
  constructor
  · rintro ⟨n, hn⟩ id ht
    rw [follow_parent?_eq_none_iff hs (hin id ht) ht] at hn
    exact ChainEnds.not_runsInCircle ⟨n, hn⟩
  · intro h
    cases ht : t.class? with
    | none => exact ⟨2, follow_parent?_of_not_class hs ht⟩
    | some id =>
      obtain ⟨n, hn⟩ := (hs.not_runsInCircle_iff (hin id ht)).mpr (h id ht)
      exact ⟨n, (follow_parent?_eq_none_iff hs (hin id ht) ht).mpr hn⟩

/-- A hierarchy that ends has at most one type more than the store has classes. -/
theorem length_hierarchy_le_size (hin : ∀ id, t.class? = some id → id.index < s.size)
    (h : ∃ n, ∀ m, (t.hierarchy s m).length ≤ n) (m : Nat) :
    (t.hierarchy s m).length ≤ s.size + 1 := by
  apply length_hierarchy_le
  cases ht : t.class? with
  | none =>
    have hsize : 2 ≤ s.size + 1 := by
      have hknown := hs.known
      omega
    exact follow_none_of_le hsize (follow_parent?_of_not_class hs ht)
  | some id =>
    rw [follow_parent?_eq_none_iff hs (hin id ht) ht]
    exact follow_none_of_not_runsInCircle (fun _ hreach _ => hs.index_lt (hin id ht) hreach)
      ((hierarchy_ends_iff hs hin).mp h id ht)

end Shape

end JvmTypes
