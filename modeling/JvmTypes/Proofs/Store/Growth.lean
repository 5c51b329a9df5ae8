import JvmTypes.Store
import Mathlib.Data.List.Nodup
import Mathlib.Data.Nat.Basic
import Mathlib.Order.Basic
/-!
# Growing stores

A store only learns new names and turns placeholders into definitions. A place handed out keeps its
name, and a definition is never replaced, so what a look-up found it finds in every later store.
-/
namespace JvmTypes.Store

variable {s t u : Store}

/-- `t` knows every name of `s` at its place and every definition of `s`. -/
structure Grows (s t : Store) : Prop where
  size_le : s.size ≤ t.size
  name_eq : ∀ id, id.index < s.size → t.name id = s.name id
  get_eq : ∀ id, (s.get id).isPlaceholder = false → t.get id = s.get id

theorem Grows.refl (s : Store) : Grows s s := ⟨le_rfl, fun _ _ => rfl, fun _ _ => rfl⟩

theorem Grows.trans (h : Grows s t) (k : Grows t u) : Grows s u := by
  refine ⟨h.size_le.trans k.size_le, ?_, ?_⟩
  · intro id hid
    rw [k.name_eq id (hid.trans_le h.size_le), h.name_eq id hid]
  · intro id hid
    have ht := h.get_eq id hid
    rw [k.get_eq id (by rw [ht, hid]), ht]

/-- Names are distinct and a placeholder declares nothing. -/
structure Sound (s : Store) : Prop where
  bare : ∀ id, (s.get id).isPlaceholder = true → s.get id = .placeholder (s.name id)
  distinct : ∀ i j, i.index < s.size → j.index < s.size → s.name i = s.name j → i = j

theorem get_of_size_le {id : ClassId} (h : s.size ≤ id.index) : s.get id = .placeholder "" := by
  have hnone : s.classes[id.index]? = none := Array.getElem?_eq_none h
  simp [get, hnone]

theorem index_lt_of_defined {id : ClassId} (h : (s.get id).isPlaceholder = false) :
    id.index < s.size := by
  by_contra hn
  rw [get_of_size_le (not_lt.mp hn)] at h
  simp [ClassDecl.placeholder] at h

theorem get_eq_getElem {i : Nat} (h : i < s.classes.size) : s.get ⟨i⟩ = s.classes[i] := by
  simp [get, Array.getElem?_eq_getElem h]

theorem lookup?_eq_some_iff {n : String} {id : ClassId} :
    s.lookup? n = some id ↔ id.index < s.size ∧ s.name id = n ∧ ∀ i < id.index, s.name ⟨i⟩ ≠ n := by
  rcases id with ⟨i⟩
  have hmk : s.lookup? n = some ⟨i⟩ ↔ s.classes.findIdx? (·.name = n) = some i := by
    simp [lookup?]
  rw [hmk, Array.findIdx?_eq_some_iff_getElem]
  constructor
  · rintro ⟨hi, hn, hfirst⟩
    refine ⟨hi, by simpa [name, get_eq_getElem hi] using hn, ?_⟩
    intro j hj
    simpa [name, get_eq_getElem (hj.trans hi)] using hfirst j hj
  · rintro ⟨hi, hn, hfirst⟩
    refine ⟨hi, by simpa [name, get_eq_getElem hi] using hn, ?_⟩
    intro j hj
    simpa [name, get_eq_getElem (hj.trans hi)] using hfirst j hj

theorem lookup?_eq_none_iff {n : String} :
    s.lookup? n = none ↔ ∀ id : ClassId, id.index < s.size → s.name id ≠ n := by
  have hmap : s.lookup? n = none ↔ s.classes.findIdx? (·.name = n) = none := by
    simp [lookup?]
  rw [hmap, Array.findIdx?_eq_none_iff]
  constructor
  · rintro h ⟨i⟩ hi hn
    have := h s.classes[i] (Array.getElem_mem hi)
    simp only [decide_eq_false_iff_not] at this
    exact this (by simpa [name, get_eq_getElem hi] using hn)
  · intro h c hc
    obtain ⟨i, hi, rfl⟩ := Array.mem_iff_getElem.mp hc
    simpa [name, get_eq_getElem hi] using h ⟨i⟩ hi

theorem name_of_lookup? {n : String} {id : ClassId} (h : s.lookup? n = some id) : s.name id = n :=
  (lookup?_eq_some_iff.mp h).2.1

theorem index_lt_of_lookup? {n : String} {id : ClassId} (h : s.lookup? n = some id) :
    id.index < s.size :=
  (lookup?_eq_some_iff.mp h).1

def DistinctNames (s : Store) : Prop :=
  ∀ i j : ClassId, i.index < s.size → j.index < s.size → s.name i = s.name j → i = j

theorem DistinctNames.lookup?_name (hs : s.DistinctNames) {id : ClassId} (h : id.index < s.size) :
    s.lookup? (s.name id) = some id := by
  refine lookup?_eq_some_iff.mpr ⟨h, rfl, ?_⟩
  intro i hi hn
  have := hs ⟨i⟩ id (hi.trans h) h hn
  subst this
  exact (lt_irrefl _ hi)

theorem Sound.lookup?_name (hs : s.Sound) {id : ClassId} (h : id.index < s.size) :
    s.lookup? (s.name id) = some id :=
  DistinctNames.lookup?_name hs.distinct h

theorem Grows.lookup? (h : Grows s t) {n : String} {id : ClassId} (hn : s.lookup? n = some id) :
    t.lookup? n = some id := by
  obtain ⟨hlt, hname, hfirst⟩ := lookup?_eq_some_iff.mp hn
  refine lookup?_eq_some_iff.mpr ⟨hlt.trans_le h.size_le, (h.name_eq id hlt).trans hname, ?_⟩
  intro i hi
  rw [h.name_eq ⟨i⟩ (hi.trans hlt)]
  exact hfirst i hi

section Intern

theorem intern_of_lookup? {n : String} {id : ClassId} (h : s.lookup? n = some id) :
    s.intern n = (id, s) := by
  simp [intern, h]

theorem intern_of_none {n : String} (h : s.lookup? n = none) :
    s.intern n = (⟨s.size⟩, ⟨s.classes.push (.placeholder n)⟩) := by
  simp [intern, h]

theorem get_push (s : Store) (decl : ClassDecl) (id : ClassId) :
    Store.get ⟨s.classes.push decl⟩ id = if id.index = s.size then decl else s.get id := by
  change ((s.classes.push decl)[id.index]?).getD _ = if id.index = s.classes.size then _ else _
  rw [Array.getElem?_push]
  split <;> rfl

theorem size_push (s : Store) (decl : ClassDecl) :
    Store.size ⟨s.classes.push decl⟩ = s.size + 1 := by
  simp [size]

theorem grows_push (s : Store) (n : String) : Grows s ⟨s.classes.push (.placeholder n)⟩ := by
  refine ⟨by rw [size_push]; omega, ?_, ?_⟩
  · intro id hid
    rw [name, name, get_push, if_neg (by omega)]
  · intro id hid
    have := index_lt_of_defined hid
    rw [get_push, if_neg (by omega)]

theorem grows_intern (s : Store) (n : String) : Grows s (s.intern n).2 := by
  cases h : s.lookup? n with
  | some id => rw [intern_of_lookup? h]; exact .refl s
  | none => rw [intern_of_none h]; exact grows_push s n

theorem get_intern {id : ClassId} (h : id.index < s.size) (n : String) :
    (s.intern n).2.get id = s.get id := by
  cases hn : s.lookup? n with
  | some i => rw [intern_of_lookup? hn]
  | none => rw [intern_of_none hn, get_push, if_neg (by omega)]

theorem get_intern_of_defined {n : String} {id : ClassId}
    (h : ((s.intern n).2.get id).isPlaceholder = false) :
    (s.intern n).2.get id = s.get id := by
  cases hn : s.lookup? n with
  | some i => rw [intern_of_lookup? hn]
  | none =>
    rw [intern_of_none hn, get_push] at h ⊢
    split
    · rename_i hid
      simp [hid, ClassDecl.placeholder] at h
    · rfl

theorem isPlaceholder_intern {n : String}
    (h : ∀ id, s.lookup? n = some id → (s.get id).isPlaceholder = true) :
    ((s.intern n).2.get (s.intern n).1).isPlaceholder = true := by
  cases hn : s.lookup? n with
  | some i =>
    rw [intern_of_lookup? hn]
    exact h i hn
  | none =>
    rw [intern_of_none hn, get_push, if_pos rfl]
    rfl

theorem lookup?_intern (s : Store) (n : String) :
    (s.intern n).2.lookup? n = some (s.intern n).1 := by
  cases h : s.lookup? n with
  | some id => rw [intern_of_lookup? h]; exact h
  | none =>
    rw [intern_of_none h]
    refine lookup?_eq_some_iff.mpr
      ⟨by simp [size], by simp [name, get_push, ClassDecl.placeholder], ?_⟩
    intro i hi
    have hne : i ≠ s.size := Nat.ne_of_lt hi
    rw [name, get_push, if_neg hne]
    exact lookup?_eq_none_iff.mp h ⟨i⟩ hi

theorem lookup?_of_intern {n m : String} {id : ClassId} (h : (s.intern n).2.lookup? m = some id) :
    m = n ∨ s.lookup? m = some id := by
  cases hn : s.lookup? n with
  | some i =>
    rw [intern_of_lookup? hn] at h
    exact Or.inr h
  | none =>
    rw [intern_of_none hn] at h
    obtain ⟨hlt, hname, hfirst⟩ := lookup?_eq_some_iff.mp h
    rw [size_push] at hlt
    rw [name, get_push] at hname
    split at hname
    · exact Or.inl hname.symm
    · refine Or.inr (lookup?_eq_some_iff.mpr ⟨by omega, hname, ?_⟩)
      intro i hi
      have hother := hfirst i hi
      have hne : i ≠ s.size := by omega
      rwa [name, get_push, if_neg hne] at hother

theorem DistinctNames.intern (hs : s.DistinctNames) (n : String) :
    (s.intern n).2.DistinctNames := by
  cases h : s.lookup? n with
  | some id => rw [intern_of_lookup? h]; exact hs
  | none =>
    rw [intern_of_none h]
    have hfresh := lookup?_eq_none_iff.mp h
    intro i j hi hj hij
    rw [size_push] at hi hj
    simp only [name, get_push] at hij
    by_cases hin : i.index = s.size <;> by_cases hjn : j.index = s.size
    · cases i; cases j; simp_all
    · rw [if_pos hin, if_neg hjn] at hij
      exact absurd hij.symm (hfresh j (by omega))
    · rw [if_neg hin, if_pos hjn] at hij
      exact absurd hij (hfresh i (by omega))
    · rw [if_neg hin, if_neg hjn] at hij
      exact hs i j (by omega) (by omega) hij

theorem Sound.intern (hs : s.Sound) (n : String) : (s.intern n).2.Sound := by
  refine ⟨?_, DistinctNames.intern hs.distinct n⟩
  cases h : s.lookup? n with
  | some id => rw [intern_of_lookup? h]; exact hs.bare
  | none =>
    rw [intern_of_none h]
    intro id hid
    rw [name]
    rw [get_push] at hid ⊢
    split at hid
    · simp_all [ClassDecl.placeholder]
    · rename_i hne
      rw [if_neg hne]
      exact hs.bare id hid

end Intern

section Define

variable {id : ClassId} {decl : ClassDecl}

@[simp] theorem size_define (s : Store) (id : ClassId) (decl : ClassDecl) :
    (s.define id decl).size = s.size := by
  simp [define, size]

theorem get_define_self (h : id.index < s.size) : (s.define id decl).get id = decl := by
  simp only [get, define]
  rw [Array.getElem?_setIfInBounds_self_of_lt h]
  rfl

theorem get_define_ne {other : ClassId} (h : other ≠ id) :
    (s.define id decl).get other = s.get other := by
  have hi : id.index ≠ other.index := fun he => h (by cases id; cases other; simp_all)
  simp only [get, define]
  rw [Array.getElem?_setIfInBounds_ne hi]

theorem grows_define (hp : (s.get id).isPlaceholder = true) (hn : decl.name = s.name id) :
    Grows s (s.define id decl) := by
  refine ⟨by simp, ?_, ?_⟩
  · intro other hlt
    by_cases h : other = id
    · subst h
      rw [name, get_define_self hlt, hn]
    · rw [name, get_define_ne h, name]
  · intro other hother
    have h : other ≠ id := by
      rintro rfl
      simp [hp] at hother
    exact get_define_ne h

theorem name_define (hn : decl.name = s.name id) (other : ClassId) :
    (s.define id decl).name other = s.name other := by
  by_cases h : other = id
  · subst h
    by_cases hlt : other.index < s.size
    · rw [name, get_define_self hlt, hn]
    · rw [name, name, get_of_size_le (by simpa using hlt), get_of_size_le (by simpa using hlt)]
  · rw [name, get_define_ne h, name]

theorem lookup?_define (hn : decl.name = s.name id) (n : String) :
    (s.define id decl).lookup? n = s.lookup? n := by
  ext other
  simp only [lookup?_eq_some_iff, size_define, name_define hn]

theorem DistinctNames.define (hs : s.DistinctNames) (hn : decl.name = s.name id) :
    (s.define id decl).DistinctNames := by
  intro i j hi hj hij
  rw [name_define hn, name_define hn] at hij
  exact hs i j (by simpa using hi) (by simpa using hj) hij

theorem Sound.define (hs : s.Sound) (hn : decl.name = s.name id) (hd : decl.isPlaceholder = false) :
    (s.define id decl).Sound := by
  refine ⟨?_, DistinctNames.define hs.distinct hn⟩
  intro other hother
  rw [name_define hn]
  by_cases h : other = id
  · subst h
    by_cases hlt : other.index < s.size
    · rw [get_define_self hlt, hd] at hother
      simp at hother
    · have hout : s.size ≤ other.index := not_lt.mp hlt
      rw [get_of_size_le (by simpa using hout), name, get_of_size_le hout]
      rfl
  · rw [get_define_ne h] at hother ⊢
    exact hs.bare other hother

end Define

theorem get_initial_mem {id : ClassId} (h : id.index < initial.size) : initial.get id ∈ seeds := by
  rw [get_eq_getElem h]
  exact Array.mem_toList_iff.mpr (Array.getElem_mem h)

theorem defined_initial {id : ClassId} (h : id.index < initial.size) :
    (initial.get id).isPlaceholder = false := by
  have hall : ∀ c ∈ seeds, c.isPlaceholder = false := by decide
  exact hall _ (get_initial_mem h)

theorem sound_initial : initial.Sound := by
  refine ⟨?_, ?_⟩
  · intro id hp
    by_cases hid : id.index < initial.size
    · simp [defined_initial hid] at hp
    · rw [name, get_of_size_le (not_lt.mp hid)]
      rfl
  · rintro ⟨i⟩ ⟨j⟩ hi hj hij
    have hnodup : (seeds.map (·.name)).Nodup := by decide
    have hsize : initial.size = (seeds.map (·.name)).length := by simp [initial, size]
    have hget : ∀ k (hk : k < (seeds.map (·.name)).length), initial.name ⟨k⟩ =
        (seeds.map (·.name))[k] := by
      intro k hk
      have hlt : k < initial.size := by omega
      rw [name, get_eq_getElem hlt]
      simp [initial]
    rw [hget i (hsize ▸ hi), hget j (hsize ▸ hj)] at hij
    have heq := hnodup.getElem_inj_iff.mp hij
    rw [heq]

/-- The stores that come from the runtime classes by taking in names and by giving the class at a
place another declaration under its name. -/
inductive Reached : Store → Prop
  | initial : Reached .initial
  | intern {s : Store} (name : String) (h : Reached s) : Reached (s.intern name).2
  | define {s : Store} (id : ClassId) (decl : ClassDecl) (hname : decl.name = s.name id)
      (h : Reached s) : Reached (s.define id decl)

theorem Reached.add {s : Store} (h : Reached s) (decl : ClassDecl) : Reached (s.add decl).2 :=
  .define _ decl (name_of_lookup? (lookup?_intern s decl.name)).symm (.intern decl.name h)

theorem Reached.distinctNames {s : Store} (h : Reached s) : s.DistinctNames := by
  induction h with
  | initial => exact sound_initial.distinct
  | intern name _ ih => exact ih.intern name
  | define id decl hname _ ih => exact ih.define hname

end JvmTypes.Store
