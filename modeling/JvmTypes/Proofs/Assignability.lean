import JvmTypes.Assignability
import JvmTypes.Proofs.Loader.Reachable
import Mathlib.Data.Finset.Card
import Mathlib.Logic.Relation
/-!
# Assignability

A class can be stored in a variable of every class that it comes to by links to super classes and
interfaces, and in one of the root class. The search for these classes goes round by round and gives
up after so many; a class may be its own super class, however far up, and still nothing is missed.
From this assignability is a preorder on all erased types.
-/
namespace JvmTypes

namespace Store

inductive Derives (s : Store) (a b : ClassId) : Prop
  | superclass {t : Shape} (h : (s.get a).superclass = some t) (ht : t.erasure? = some (.cls b)) :
      Derives s a b
  | interface {t : Shape} (h : t ∈ (s.get a).interfaces) (ht : t.erasure? = some (.cls b)) :
      Derives s a b

abbrev Reaches (s : Store) : ClassId → ClassId → Prop := Relation.ReflTransGen s.Derives

/-- The classes behind every array, and the root class, name no super types. -/
def HasBareRoots (s : Store) : Prop :=
  ∀ id ∈ [ClassId.object, .cloneable, .serializable], (s.get id).supertypes = []

instance (s : Store) : Decidable s.HasBareRoots :=
  inferInstanceAs (Decidable (∀ id ∈ [ClassId.object, .cloneable, .serializable],
    (s.get id).supertypes = []))

/-- The walk that looks for `target` takes the classes of a queue one after the other. Those that
they extend join its end, but none that was seen before. Nothing bounds its steps. -/
inductive Walks (s : Store) (target : ClassId) : (queue seen : List ClassId) → Bool → Prop
  | exhausted {seen : List ClassId} : Walks s target [] seen false
  | found {queue seen : List ClassId} : Walks s target (target :: queue) seen true
  | passes {id : ClassId} {queue seen : List ClassId} {answer : Bool} (hne : id ≠ target)
      (h : Walks s target (queue ++ s.nextFront seen [id]) (seen ++ s.nextFront seen [id]) answer) :
      Walks s target (id :: queue) seen answer

variable {s : Store} {a b source target : ClassId} {seen front : List ClassId}

theorem mem_supertypes : b ∈ (s.get a).supertypes ↔ s.Derives a b := by
  have hclass : ∀ t : Shape, t.erasure?.bind Erased.classId? = some b ↔
      t.erasure? = some (.cls b) := by
    intro t
    cases t.erasure? with
    | none => simp
    | some e => cases e <;> simp [Erased.classId?]
  simp only [ClassDecl.supertypes, List.mem_filterMap, List.mem_append, Option.mem_toList, hclass]
  constructor
  · rintro ⟨t, h | h, ht⟩
    · exact .superclass h ht
    · exact .interface h ht
  · rintro (⟨h, ht⟩ | ⟨h, ht⟩)
    · exact ⟨_, Or.inl h, ht⟩
    · exact ⟨_, Or.inr h, ht⟩

theorem mem_nextFront : b ∈ s.nextFront seen front ↔ (∃ a ∈ front, s.Derives a b) ∧ b ∉ seen := by
  simp [nextFront, List.mem_eraseDups, mem_supertypes]

theorem derives_of_size_le (h : s.size ≤ a.index) (hb : s.Derives a b) : b = .object := by
  have hsupers := mem_supertypes.mpr hb
  rw [get_of_size_le h] at hsupers
  exact List.mem_singleton.mp hsupers

theorem HasBareRoots.eq_of_reaches (h : s.HasBareRoots)
    (ha : a ∈ [ClassId.object, .cloneable, .serializable]) (hr : s.Reaches a b) : b = a := by
  induction hr with
  | refl => rfl
  | tail _ hb ih =>
    have hsupers := mem_supertypes.mpr hb
    rw [ih, h a ha] at hsupers
    cases hsupers

theorem hasBareRoots_of_seeded (h : initial.Grows s) : s.HasBareRoots := by
  have hseeds : ∀ id ∈ [ClassId.object, .cloneable, .serializable],
      (initial.get id).isPlaceholder = false ∧ (initial.get id).supertypes = [] := by decide
  intro id hid
  obtain ⟨hdefined, hbare⟩ := hseeds id hid
  rw [h.get_eq id hdefined, hbare]

/-- All that was seen is reached from `source`, and what it extends was seen too, but for the
classes of the front, whose turn is still to come. -/
structure Explored (s : Store) (source : ClassId) (seen front : List ClassId) : Prop where
  start : source ∈ seen
  known : ∀ id ∈ front, id ∈ seen
  reached : ∀ id ∈ seen, s.Reaches source id
  passed : ∀ id ∈ seen, id ∉ front → ∀ next, s.Derives id next → next ∈ seen

namespace Explored

theorem begins (s : Store) (source : ClassId) : s.Explored source [source] [source] := by
  refine ⟨by simp, by simp, ?_, ?_⟩
  · intro id hid
    obtain rfl := List.mem_singleton.mp hid
    exact .refl
  · intro id hid hfront
    exact absurd hid hfront

theorem advance {done rest : List ClassId} (h : s.Explored source seen (done ++ rest)) :
    s.Explored source (seen ++ s.nextFront seen done) (rest ++ s.nextFront seen done) := by
  refine ⟨List.mem_append_left _ h.start, ?_, ?_, ?_⟩
  · intro id hid
    rcases List.mem_append.mp hid with hid | hid
    · exact List.mem_append_left _ (h.known id (List.mem_append_right _ hid))
    · exact List.mem_append_right _ hid
  · intro id hid
    rcases List.mem_append.mp hid with hid | hid
    · exact h.reached id hid
    · obtain ⟨⟨a, ha, hlink⟩, _⟩ := mem_nextFront.mp hid
      exact (h.reached a (h.known a (List.mem_append_left _ ha))).tail hlink
  · intro id hid hfront next hnext
    have hseen : id ∈ seen := by
      refine (List.mem_append.mp hid).resolve_right fun hmem => ?_
      exact hfront (List.mem_append_right _ hmem)
    by_cases hdone : id ∈ done
    · by_cases hold : next ∈ seen
      · exact List.mem_append_left _ hold
      · exact List.mem_append_right _ (mem_nextFront.mpr ⟨⟨id, hdone, hnext⟩, hold⟩)
    · refine List.mem_append_left _ (h.passed id hseen ?_ next hnext)
      intro hmem
      rcases List.mem_append.mp hmem with hmem | hmem
      · exact hdone hmem
      · exact hfront (List.mem_append_left _ hmem)

theorem mem_iff (h : s.Explored source seen front)
    (hclosed : ∀ id ∈ front, ∀ next, s.Derives id next → next ∈ seen) {id : ClassId} :
    id ∈ seen ↔ s.Reaches source id := by
  constructor
  · exact h.reached id
  · intro hreach
    induction hreach with
    | refl => exact h.start
    | @tail b next _ hnext ih =>
      by_cases hb : b ∈ front
      · exact hclosed b hb next hnext
      · exact h.passed b ih hb next hnext

end Explored

def unpassed (s : Store) (seen front : List ClassId) : Finset ClassId :=
  s.ids.toFinset.filter fun id => id ∉ seen ∨ id ∈ front

/-- No search goes on for more rounds than this. A class that is not in the store costs a round only
if it is the first to lead to the root class. -/
def remaining (s : Store) (seen front : List ClassId) : Nat :=
  (s.unpassed seen front).card + if ClassId.object ∈ seen then 0 else 1

theorem mem_unpassed : a ∈ s.unpassed seen front ↔ a.index < s.size ∧ (a ∉ seen ∨ a ∈ front) := by
  have hids : a ∈ s.ids ↔ a.index < s.size := by
    simp only [ids, List.mem_map, List.mem_range]
    constructor
    · rintro ⟨i, hi, rfl⟩
      exact hi
    · exact fun h => ⟨a.index, h, rfl⟩
  rw [unpassed, Finset.mem_filter, List.mem_toFinset, hids]

theorem remaining_le (s : Store) (seen front : List ClassId) :
    s.remaining seen front ≤ s.size + 1 := by
  have hcard : (s.unpassed seen front).card ≤ s.size :=
    calc (s.unpassed seen front).card ≤ s.ids.toFinset.card := Finset.card_filter_le _ _
      _ ≤ s.ids.length := List.toFinset_card_le _
      _ = s.size := by simp [ids]
  rw [remaining]
  split <;> omega

theorem remaining_lt (hknown : ∀ id ∈ front, id ∈ seen) (hnew : b ∈ s.nextFront seen front) :
    s.remaining (seen ++ s.nextFront seen front) (s.nextFront seen front) <
      s.remaining seen front := by
  obtain ⟨⟨a, ha, hlink⟩, hb⟩ := mem_nextFront.mp hnew
  have hunseen : ∀ id, id ∈ s.unpassed (seen ++ s.nextFront seen front) (s.nextFront seen front) →
      id.index < s.size ∧ id ∉ seen := by
    intro id hid
    obtain ⟨hsize, hid⟩ := mem_unpassed.mp hid
    refine ⟨hsize, fun hmem => ?_⟩
    rcases hid with hid | hid
    · exact hid (List.mem_append_left _ hmem)
    · exact (mem_nextFront.mp hid).2 hmem
  have hsubset : s.unpassed (seen ++ s.nextFront seen front) (s.nextFront seen front) ⊆
      s.unpassed seen front := by
    intro id hid
    obtain ⟨hsize, hid⟩ := hunseen id hid
    exact mem_unpassed.mpr ⟨hsize, Or.inl hid⟩
  have hcard := Finset.card_le_card hsubset
  by_cases hsize : a.index < s.size
  · -- the turn of `a` is over
    have hmem : a ∈ s.unpassed seen front := mem_unpassed.mpr ⟨hsize, Or.inr ha⟩
    have hless : (s.unpassed (seen ++ s.nextFront seen front) (s.nextFront seen front)).card <
        (s.unpassed seen front).card :=
      Finset.card_lt_card ⟨hsubset, fun h => (hunseen a (h hmem)).2 (hknown a ha)⟩
    have hroot : (if ClassId.object ∈ seen ++ s.nextFront seen front then 0 else 1) ≤
        if ClassId.object ∈ seen then 0 else 1 := by
      split
      · omega
      · rename_i hroot
        rw [if_neg fun h => hroot (List.mem_append_left _ h)]
    rw [remaining, remaining]
    omega
  · -- outside of the store there is only the link to the root class
    obtain rfl := derives_of_size_le (not_lt.mp hsize) hlink
    rw [remaining, remaining, if_pos (List.mem_append_right _ hnew), if_neg hb]
    omega

theorem mem_closure {n : Nat} (h : s.Explored source seen front)
    (hn : s.remaining seen front ≤ n) :
    target ∈ s.closure n seen front ↔ s.Reaches source target := by
  induction n generalizing seen front with
  | zero =>
    refine h.mem_iff fun id hid next hnext => ?_
    rw [remaining] at hn
    have hroot : ClassId.object ∈ seen := by
      by_contra hroot
      rw [if_neg hroot] at hn
      omega
    have hout : ¬ id.index < s.size := by
      intro hsize
      have hmem : id ∈ s.unpassed seen front := mem_unpassed.mpr ⟨hsize, Or.inr hid⟩
      have hpos := Finset.card_pos.mpr ⟨id, hmem⟩
      omega
    rw [derives_of_size_le (not_lt.mp hout) hnext]
    exact hroot
  | succ n ih =>
    rw [closure]
    split
    · rename_i hnone
      refine h.mem_iff fun id hid next hnext => ?_
      by_contra hnew
      have hmem := mem_nextFront.mpr ⟨⟨id, hid, hnext⟩, hnew⟩
      rw [hnone] at hmem
      cases hmem
    · rename_i hsome
      obtain ⟨b, hb⟩ := List.exists_mem_of_ne_nil _ hsome
      have hless := remaining_lt h.known hb
      rw [← List.append_nil front] at h
      exact ih h.advance (by omega)

theorem mem_ancestors : target ∈ s.ancestors source ↔ s.Reaches source target :=
  mem_closure (.begins s source) (remaining_le s _ _)

theorem isSubclass_iff : s.isSubclass source target = true ↔ s.Reaches source target := by
  rw [isSubclass, decide_eq_true_iff, mem_ancestors]

def unseen (s : Store) (source : ClassId) (seen : List ClassId) : Finset ClassId :=
  (s.ancestors source).toFinset.filter (· ∉ seen)

theorem mem_unseen : b ∈ s.unseen source seen ↔ s.Reaches source b ∧ b ∉ seen := by
  rw [unseen, Finset.mem_filter, List.mem_toFinset, mem_ancestors]

theorem card_unseen_lt {more : List ClassId} (hb : b ∈ more) (hreach : s.Reaches source b)
    (hnew : b ∉ seen) :
    (s.unseen source (seen ++ more)).card < (s.unseen source seen).card := by
  have hsubset : s.unseen source (seen ++ more) ⊆ s.unseen source seen := by
    intro c hc
    obtain ⟨hreach, hc⟩ := mem_unseen.mp hc
    exact mem_unseen.mpr ⟨hreach, fun h => hc (List.mem_append_left _ h)⟩
  apply Finset.card_lt_card
  rw [Finset.ssubset_iff_of_subset hsubset]
  refine ⟨b, mem_unseen.mpr ⟨hreach, hnew⟩, fun h => ?_⟩
  exact (mem_unseen.mp h).2 (List.mem_append_right _ hb)

/-- The walk that takes one class at a time ends with what the rounds find. A step that brings new
classes into the queue leaves fewer to be seen, any other shortens the queue. -/
theorem Explored.walks (h : s.Explored source seen front)
    (htarget : target ∈ seen → target ∈ front) :
    s.Walks target front seen (s.isSubclass source target) := by
  generalize hm : (s.unseen source seen).card = m
  induction m using Nat.strong_induction_on generalizing seen front with
  | _ m ih =>
    induction front with
    | nil =>
      have hnot : ¬ s.isSubclass source target = true := by
        rw [isSubclass_iff, ← h.mem_iff nofun]
        exact fun hmem => List.not_mem_nil (htarget hmem)
      rw [Bool.eq_false_iff.mpr hnot]
      exact .exhausted
    | cons id rest ihrest =>
      by_cases hid : id = target
      · subst hid
        rw [isSubclass_iff.mpr (h.reached id (h.known id (List.mem_cons_self ..)))]
        exact .found
      · have hadvance : s.Explored source (seen ++ s.nextFront seen [id])
            (rest ++ s.nextFront seen [id]) := advance h
        have hlater : target ∈ seen ++ s.nextFront seen [id] →
            target ∈ rest ++ s.nextFront seen [id] := by
          intro hmem
          rcases List.mem_append.mp hmem with hmem | hmem
          · have hrest := (List.mem_cons.mp (htarget hmem)).resolve_left (Ne.symm hid)
            exact List.mem_append_left _ hrest
          · exact List.mem_append_right _ hmem
        refine .passes hid ?_
        by_cases hnew : s.nextFront seen [id] = []
        · rw [hnew, List.append_nil, List.append_nil] at hadvance hlater ⊢
          exact ihrest hadvance hlater
        · obtain ⟨b, hb⟩ := List.exists_mem_of_ne_nil _ hnew
          have hreach := hadvance.reached b (List.mem_append_right _ hb)
          have hless := card_unseen_lt hb hreach (mem_nextFront.mp hb).2
          exact ih _ (hm ▸ hless) hadvance hlater rfl

theorem walks_isSubclass (s : Store) (source target : ClassId) :
    s.Walks target [source] [source] (s.isSubclass source target) :=
  (Explored.begins s source).walks id

end Store

namespace Erased

variable {s : Store} {t e : Erased} {target source : ClassId}

@[simp] theorem isAssignable_void : void.isAssignable s e = decide (void = e) := rfl

@[simp] theorem isAssignable_primitive {p : BaseType} :
    (primitive p).isAssignable s e = decide (primitive p = e) := rfl

@[simp] theorem isAssignable_cls_cls : (cls target).isAssignable s (cls source) =
    (target = source || target = .object || s.isSubclass source target) := rfl

@[simp] theorem isAssignable_cls_array : (cls target).isAssignable s (array e) =
    (target = .object || target = .cloneable || target = .serializable) := rfl

@[simp] theorem isAssignable_array_array : (array t).isAssignable s (array e) =
    (t = e || (!t.isPrimitive && !e.isPrimitive && t.isAssignable s e)) := rfl

theorem isAssignable_refl (s : Store) (e : Erased) : e.isAssignable s e = true := by
  cases e <;> simp

theorem isAssignable_class :
    (cls target).isAssignable s (cls source) = true ↔
      target = .object ∨ s.Reaches source target := by
  simp only [isAssignable_cls_cls, Bool.or_eq_true, decide_eq_true_iff, Store.isSubclass_iff]
  constructor
  · rintro ((rfl | h) | h)
    · exact Or.inr .refl
    · exact Or.inl h
    · exact Or.inr h
  · rintro (h | h)
    · exact Or.inl (Or.inr h)
    · exact Or.inr h

theorem isAssignable_class_array :
    (cls target).isAssignable s (array e) = true ↔
      target ∈ [ClassId.object, .cloneable, .serializable] := by
  simp [or_assoc]

theorem eq_of_isPrimitive (h : t.isAssignable s e = true)
    (hp : t.isPrimitive = true ∨ e.isPrimitive = true) : t = e := by
  rcases hp with hp | hp
  · cases t with
    | primitive _ => exact of_decide_eq_true h
    | void | cls _ | array _ => cases hp
  · cases e with
    | primitive _ => cases t <;> exact of_decide_eq_true h
    | void | cls _ | array _ => cases hp

theorem isAssignable_array : (array t).isAssignable s (array e) = true ↔
    t.isAssignable s e = true := by
  simp only [isAssignable_array_array, Bool.or_eq_true, Bool.and_eq_true, decide_eq_true_iff]
  constructor
  · rintro (rfl | ⟨_, h⟩)
    · exact isAssignable_refl s t
    · exact h
  · intro h
    by_cases hp : t.isPrimitive = true ∨ e.isPrimitive = true
    · exact Or.inl (eq_of_isPrimitive h hp)
    · exact Or.inr ⟨by simpa using hp, h⟩

theorem array_of_isAssignable (h : (array t).isAssignable s e = true) :
    ∃ c, e = array c ∧ t.isAssignable s c = true := by
  cases e with
  | array c => exact ⟨c, rfl, isAssignable_array.mp h⟩
  | void | primitive _ | cls _ => cases of_decide_eq_true h

theorem class_of_isAssignable (h : (cls target).isAssignable s e = true) :
    (∃ source, e = cls source ∧ (target = .object ∨ s.Reaches source target)) ∨
      ∃ c, e = array c ∧ target ∈ [ClassId.object, .cloneable, .serializable] := by
  cases e with
  | cls source => exact Or.inl ⟨source, rfl, isAssignable_class.mp h⟩
  | array c => exact Or.inr ⟨c, rfl, isAssignable_class_array.mp h⟩
  | void | primitive _ => cases of_decide_eq_true h

theorem isAssignable_trans (hroots : s.HasBareRoots) {a b c : Erased}
    (hab : a.isAssignable s b = true) (hbc : b.isAssignable s c = true) :
    a.isAssignable s c = true := by
  have hroot : ∀ {id target : ClassId}, id ∈ [ClassId.object, .cloneable, .serializable] →
      target = .object ∨ s.Reaches id target →
        target = .object ∨ target = id := fun hid h => h.imp_right (hroots.eq_of_reaches hid)
  induction a generalizing b c with
  | void =>
    obtain rfl : void = b := by simpa using hab
    exact hbc
  | primitive p =>
    obtain rfl : primitive p = b := by simpa using hab
    exact hbc
  | cls a =>
    rcases class_of_isAssignable hab with ⟨b, rfl, hreach⟩ | ⟨b, rfl, ha⟩
    · rcases class_of_isAssignable hbc with ⟨c, rfl, hlower⟩ | ⟨c, rfl, hb⟩
      · rw [isAssignable_class]
        rcases hlower with rfl | hlower
        · exact (hroot (by simp) hreach).elim Or.inl Or.inl
        · exact hreach.imp_right hlower.trans
      · rw [isAssignable_class_array]
        rcases hroot hb hreach with rfl | rfl
        · simp
        · exact hb
    · obtain ⟨c, rfl, _⟩ := array_of_isAssignable hbc
      exact isAssignable_class_array.mpr ha
  | array a ih =>
    obtain ⟨b, rfl, hcomponent⟩ := array_of_isAssignable hab
    obtain ⟨c, rfl, hlower⟩ := array_of_isAssignable hbc
    exact isAssignable_array.mpr (ih hcomponent hlower)

/-- Assignability is reachability among classes, for which the search always ends, and a preorder on
all types. -/
theorem assignable_preorder_of_reachability :
    (∀ s : Store, (∀ source target, s.Walks target [source] [source] (s.isSubclass source target)) ∧
      (∀ source target, (cls target).isAssignable s (cls source) = true ↔
        target = .object ∨ s.Reaches source target) ∧
      (∀ e : Erased, e.isAssignable s e = true) ∧
      (s.HasBareRoots → ∀ a b c : Erased, a.isAssignable s b = true → b.isAssignable s c = true →
        a.isAssignable s c = true)) ∧
    ∀ st, Loader.Reachable st → st.store.HasBareRoots := by
  refine ⟨fun s => ⟨s.walks_isSubclass, fun _ _ => isAssignable_class, isAssignable_refl s, ?_⟩, ?_⟩
  · intro hroots a b c
    exact isAssignable_trans hroots
  · intro st h
    exact Store.hasBareRoots_of_seeded h.seeded

def ringStub : ClassStub where
  name := "p.Ring"
  flags := .empty
  superclass := some "p.Ring"
  interfaces := ["java.io.Serializable"]
  signature := none
  declaring := none
  annotations := []
  fields := []
  methods := []

def ringState : Loader.State :=
  (Loader.load (fun name => if name = "p.Ring" then some ringStub else none) {} "p.Ring"
    { store := .initial }).2

/-- The search for `Cloneable` from the class goes round once and ends, and what holds an array of
arrays of the class holds through two steps. -/
theorem ring_is_assignable_to_serializable :
    Loader.Reachable ringState ∧ ringState.store.Derives ⟨14⟩ ⟨14⟩ ∧
    ringState.store.HasBareRoots ∧
    ringState.store.Walks .cloneable [⟨14⟩] [⟨14⟩] false ∧
    (cls .serializable).isAssignable ringState.store (cls ⟨14⟩) = true ∧
    (array (cls .serializable)).isAssignable ringState.store (array (array (cls ⟨14⟩))) = true := by
  have hreachable : Loader.Reachable ringState :=
    (Loader.Supplied.single ringStub {} "p.Ring").reachable
  have hlink : ringState.store.Derives ⟨14⟩ ⟨14⟩ := Store.mem_supertypes.mp (by decide +kernel)
  have hinterface : ringState.store.Derives ⟨14⟩ .serializable :=
    Store.mem_supertypes.mp (by decide +kernel)
  obtain ⟨hstore, hloaded⟩ := assignable_preorder_of_reachability
  obtain ⟨hwalks, hclass, _, htrans⟩ := hstore ringState.store
  have hroots := hloaded ringState hreachable
  have hmissed : ringState.store.isSubclass ⟨14⟩ .cloneable = false := by decide +kernel
  refine ⟨hreachable, hlink, hroots, ?_, ?_, ?_⟩
  · rw [← hmissed]
    exact hwalks ⟨14⟩ .cloneable
  · exact (hclass ⟨14⟩ .serializable).mpr (Or.inr (.single hinterface))
  · exact htrans hroots _ (array (array (cls .serializable))) _ (by decide +kernel)
      (by decide +kernel)

end Erased

end JvmTypes
