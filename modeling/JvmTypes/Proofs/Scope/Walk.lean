import JvmTypes.Scope
import JvmTypes.Proofs.Store.Growth
import Mathlib.Data.Fintype.Card
/-!
# Walks through the enclosing classes

The search for a type variable goes outwards class by class. The store bounds its steps, which loses
nothing: a walk that finds the variable at all passes no class twice. Scopes make the same walk and
yield references.
-/
namespace JvmTypes

namespace Store

variable {s t : Store} {symbol : String} {r : ClassId × TypeVarDecl}

theorem findVariableIn_succ (s : Store) (symbol : String) (n : Nat) (id : ClassId) :
    s.findVariableIn symbol (n + 1) id =
      (((TypeVarDecl.find? symbol (s.get id).typeVariables).map (id, ·)).or
        ((s.get id).enclosing.bind (s.findVariableIn symbol n))) := by
  simp only [findVariableIn]
  split <;> simp_all

theorem findVariableIn_mono {n m : Nat} {id : ClassId} (hle : n ≤ m)
    (h : s.findVariableIn symbol n id = some r) :
    s.findVariableIn symbol m id = some r := by
  induction m generalizing n id with
  | zero =>
    obtain rfl := Nat.le_zero.mp hle
    exact h
  | succ m ih =>
    cases n with
    | zero => simp [findVariableIn] at h
    | succ n =>
      rw [findVariableIn_succ] at h ⊢
      rcases Option.or_eq_some_iff.mp h with h | ⟨hnone, h⟩
      · exact Option.or_eq_some_iff.mpr (Or.inl h)
      · obtain ⟨outer, houter, h⟩ := Option.bind_eq_some_iff.mp h
        refine Option.or_eq_some_iff.mpr (Or.inr ⟨hnone, ?_⟩)
        exact Option.bind_eq_some_iff.mpr ⟨outer, houter, ih (Nat.le_of_succ_le_succ hle) h⟩

theorem index_lt_of_walk {n : Nat} {id : ClassId} (h : s.findVariableIn symbol n id = some r) :
    id.index < s.size := by
  cases n with
  | zero => simp [findVariableIn] at h
  | succ n =>
    by_contra hout
    have hget := get_of_size_le (not_lt.mp hout)
    simp [findVariableIn, hget, ClassDecl.placeholder, ClassDecl.enclosing, TypeVarDecl.find?] at h

/-- On the shortest successful walk every number of remaining steps belongs to a class of its
own. -/
theorem walk_visits {k : Nat} {id : ClassId} (h : s.findVariableIn symbol k id = some r)
    (hmin : ∀ j < k, s.findVariableIn symbol j id = none) :
    ∀ j, 0 < j → j ≤ k → ∃ c, c.index < s.size ∧ s.findVariableIn symbol j c = some r ∧
      ∀ i < j, s.findVariableIn symbol i c = none := by
  induction k generalizing id with
  | zero => simp [findVariableIn] at h
  | succ k ih =>
    intro j hj hle
    rcases Nat.lt_or_eq_of_le hle with hlt | rfl
    · rw [findVariableIn_succ] at h
      rcases Option.or_eq_some_iff.mp h with hown | ⟨hnone, hout⟩
      · have hone : s.findVariableIn symbol 1 id = some r := by
          rw [findVariableIn_succ]
          exact Option.or_eq_some_iff.mpr (Or.inl hown)
        rw [hmin 1 (by omega)] at hone
        simp at hone
      · obtain ⟨outer, houter, h⟩ := Option.bind_eq_some_iff.mp hout
        refine ih h ?_ j hj (by omega)
        intro i hi
        have := hmin (i + 1) (by omega)
        rw [findVariableIn_succ, hnone, Option.none_or, houter] at this
        exact this
    · exact ⟨id, index_lt_of_walk h, h, hmin⟩

theorem shortest_walk_le_size {k : Nat} {id : ClassId} (h : s.findVariableIn symbol k id = some r)
    (hmin : ∀ j < k, s.findVariableIn symbol j id = none) : k ≤ s.size := by
  have hvisits := walk_visits h hmin
  choose c hlt hfound hnone using fun j : Fin k => hvisits (j + 1) (by omega) (by omega)
  have hinj : Function.Injective fun j => (⟨(c j).index, hlt j⟩ : Fin s.size) := by
    intro i j hij
    have hc : c i = c j := by
      have := Fin.mk.inj hij
      cases hi : c i; cases hj : c j
      simp_all
    rcases lt_trichotomy i j with hlt | heq | hlt
    · have := hnone j (i + 1) (by omega)
      rw [← hc, hfound i] at this
      simp at this
    · exact heq
    · have := hnone i (j + 1) (by omega)
      rw [hc, hfound j] at this
      simp at this
  simpa using Fintype.card_le_of_injective _ hinj

/-- The bound on the steps loses nothing. -/
theorem findVariable?_eq_some_iff {id : ClassId} :
    s.findVariable? id symbol = some r ↔ ∃ n, s.findVariableIn symbol n id = some r := by
  constructor
  · intro h
    exact ⟨s.size, h⟩
  · rintro ⟨n, h⟩
    have hex : ∃ k, (s.findVariableIn symbol k id).isSome := ⟨n, by simp [h]⟩
    obtain ⟨k, hk, hmin⟩ : ∃ k, (s.findVariableIn symbol k id).isSome ∧
        ∀ j < k, s.findVariableIn symbol j id = none :=
      ⟨Nat.find hex, Nat.find_spec hex, fun j hj => by simpa using Nat.find_min hex hj⟩
    obtain ⟨r', hr'⟩ := Option.isSome_iff_exists.mp hk
    have hsize : s.findVariableIn symbol s.size id = some r' :=
      findVariableIn_mono (shortest_walk_le_size hr' hmin) hr'
    have hkn : k ≤ n := by
      by_contra hlt
      rw [hmin n (not_le.mp hlt)] at h
      simp at h
    rw [findVariable?, hsize, ← findVariableIn_mono hkn hr', h]

theorem findVariable?_eq (s : Store) (id : ClassId) (symbol : String) :
    s.findVariable? id symbol =
      ((TypeVarDecl.find? symbol (s.get id).typeVariables).map (id, ·)).or
        ((s.get id).enclosing.bind (s.findVariable? · symbol)) := by
  ext r
  constructor
  · intro h
    obtain ⟨n, h⟩ := findVariable?_eq_some_iff.mp h
    cases n with
    | zero => simp [findVariableIn] at h
    | succ n =>
      rw [findVariableIn_succ] at h
      rcases Option.or_eq_some_iff.mp h with h | ⟨hnone, h⟩
      · exact Option.or_eq_some_iff.mpr (Or.inl h)
      · obtain ⟨outer, houter, h⟩ := Option.bind_eq_some_iff.mp h
        refine Option.or_eq_some_iff.mpr (Or.inr ⟨hnone, ?_⟩)
        exact Option.bind_eq_some_iff.mpr ⟨outer, houter, findVariable?_eq_some_iff.mpr ⟨n, h⟩⟩
  · intro h
    rcases Option.or_eq_some_iff.mp h with h | ⟨hnone, h⟩
    · refine findVariable?_eq_some_iff.mpr ⟨1, ?_⟩
      rw [findVariableIn_succ]
      exact Option.or_eq_some_iff.mpr (Or.inl h)
    · obtain ⟨outer, houter, h⟩ := Option.bind_eq_some_iff.mp h
      obtain ⟨n, h⟩ := findVariable?_eq_some_iff.mp h
      refine findVariable?_eq_some_iff.mpr ⟨n + 1, ?_⟩
      rw [findVariableIn_succ]
      exact Option.or_eq_some_iff.mpr
        (Or.inr ⟨hnone, Option.bind_eq_some_iff.mpr ⟨outer, houter, h⟩⟩)

/-- A placeholder ends every walk, so a walk that succeeds meets definitions only, and these
stay. -/
theorem Grows.findVariable? (h : Grows s t) (hs : s.Sound) {id : ClassId}
    (hr : s.findVariable? id symbol = some r) : t.findVariable? id symbol = some r := by
  obtain ⟨n, hf⟩ := findVariable?_eq_some_iff.mp hr
  refine findVariable?_eq_some_iff.mpr ⟨n, ?_⟩
  clear hr
  induction n generalizing id with
  | zero => simp [findVariableIn] at hf
  | succ n ih =>
    have hdefined : (s.get id).isPlaceholder = false := by
      by_contra hp
      have hbare := hs.bare id (by simpa using hp)
      simp [findVariableIn, hbare, ClassDecl.placeholder, ClassDecl.enclosing,
        TypeVarDecl.find?] at hf
    rw [findVariableIn_succ] at hf ⊢
    rw [h.get_eq id hdefined]
    rcases Option.or_eq_some_iff.mp hf with hf | ⟨hnone, hf⟩
    · exact Option.or_eq_some_iff.mpr (Or.inl hf)
    · obtain ⟨outer, houter, hf⟩ := Option.bind_eq_some_iff.mp hf
      exact Option.or_eq_some_iff.mpr
        (Or.inr ⟨hnone, Option.bind_eq_some_iff.mpr ⟨outer, houter, ih hf⟩⟩)

theorem symbol_of_find? {vars : List TypeVarDecl} {v : TypeVarDecl}
    (h : TypeVarDecl.find? symbol vars = some v) :
    v.symbol = symbol := by
  simpa using List.find?_some h

theorem find?_of_findVariable? {id : ClassId} (h : s.findVariable? id symbol = some r) :
    TypeVarDecl.find? symbol (s.get r.1).typeVariables = some r.2 := by
  obtain ⟨n, hf⟩ := findVariable?_eq_some_iff.mp h
  clear h
  induction n generalizing id with
  | zero => simp [findVariableIn] at hf
  | succ n ih =>
    rw [findVariableIn_succ] at hf
    rcases Option.or_eq_some_iff.mp hf with hf | ⟨_, hf⟩
    · obtain ⟨v, hv, rfl⟩ := Option.map_eq_some_iff.mp hf
      exact hv
    · obtain ⟨outer, _, hf⟩ := Option.bind_eq_some_iff.mp hf
      exact ih hf

theorem symbol_of_findVariable? {id : ClassId} (h : s.findVariable? id symbol = some r) :
    r.2.symbol = symbol :=
  symbol_of_find? (find?_of_findVariable? h)

end Store

def TypeVariable.ofFound (found : ClassId × TypeVarDecl) : TypeVariable :=
  ⟨found.2.symbol, .type found.1, found.2.erasure⟩

namespace Scope

variable {s t : Store}

theorem upTo_eq (s : Store) (n : Nat) (id : ClassId) (symbol : String) :
    upTo s n id symbol = (s.findVariableIn symbol n id).map .ofFound := by
  induction n generalizing id with
  | zero => rfl
  | succ n ih =>
    rw [Store.findVariableIn_succ]
    simp only [upTo, orElse, declaredBy, ofDecls, ih]
    cases TypeVarDecl.find? symbol (s.get id).typeVariables with
    | some v => rfl
    | none => cases (s.get id).enclosing <;> rfl

/-- The two searches through the enclosing classes agree. -/
theorem ofClass_eq (s : Store) (id : ClassId) (symbol : String) :
    ofClass s id symbol = (s.findVariable? id symbol).map .ofFound :=
  upTo_eq s s.size id symbol

/-- The scope that a declaration gives its members, also while it is not yet in the store. -/
def inside (s : Store) (id : ClassId) (decl : ClassDecl) : Scope :=
  (ofDecls (.type id) decl.typeVariables).orElse fun symbol =>
    decl.enclosing.bind fun outer => ofClass s outer symbol

theorem ofClass_eq_inside (s : Store) (id : ClassId) : ofClass s id = inside s id (s.get id) := by
  funext symbol
  rw [ofClass_eq, Store.findVariable?_eq]
  simp only [inside, orElse, ofDecls, ofClass_eq]
  cases TypeVarDecl.find? symbol (s.get id).typeVariables with
  | some v => rfl
  | none => cases (s.get id).enclosing <;> rfl

theorem inside_mono (h : s.Grows t) (hs : s.Sound) {id : ClassId} {decl : ClassDecl}
    {symbol : String} {v : TypeVariable} (hv : inside s id decl symbol = some v) :
    inside t id decl symbol = some v := by
  simp only [inside, orElse] at hv ⊢
  rcases Option.or_eq_some_iff.mp hv with hv | ⟨hnone, hv⟩
  · exact Option.or_eq_some_iff.mpr (Or.inl hv)
  · refine Option.or_eq_some_iff.mpr (Or.inr ⟨hnone, ?_⟩)
    obtain ⟨outer, houter, hv⟩ := Option.bind_eq_some_iff.mp hv
    refine Option.bind_eq_some_iff.mpr ⟨outer, houter, ?_⟩
    rw [ofClass_eq] at hv ⊢
    obtain ⟨r, hr, rfl⟩ := Option.map_eq_some_iff.mp hv
    exact Option.map_eq_some_iff.mpr ⟨r, h.findVariable? hs hr, rfl⟩

theorem declaredBy_of_ofClass {id : ClassId} {symbol : String} {v : TypeVariable}
    (h : ofClass s id symbol = some v) :
    ∃ o, v.source = .type o ∧ v.symbol = symbol ∧ declaredBy s o symbol = some v := by
  rw [ofClass_eq] at h
  obtain ⟨found, hfound, rfl⟩ := Option.map_eq_some_iff.mp h
  refine ⟨found.1, rfl, Store.symbol_of_findVariable? hfound, ?_⟩
  rw [declaredBy, ofDecls, Store.find?_of_findVariable? hfound]
  rfl

theorem source_of_ofClass {id : ClassId} {symbol : String} {v : TypeVariable}
    (h : ofClass s id symbol = some v) :
    ∃ o, v.source = .type o := by
  obtain ⟨o, hsource, _⟩ := declaredBy_of_ofClass h
  exact ⟨o, hsource⟩

end Scope

end JvmTypes
