import JvmTypes.Proofs.Loader.Yield
import JvmTypes.Proofs.Method.OwnVariables
import Mathlib.Data.List.Forall2
/-!
# Erasures of type parameters

The erasure of a type parameter is read off its chain of first bounds before the bounds are
converted. Where no two parameters share a name, it is the erasure of the declaration that the
conversion yields.
-/
namespace JvmTypes.Loader

open Signature

theorem not_mem_map_of_findIdx? {f : α → String} {xs : List α} {x : String}
    (h : xs.findIdx? (f · = x) = none) : x ∉ xs.map f := by
  intro hmem
  obtain ⟨y, hy, hkey⟩ := List.mem_map.mp hmem
  exact of_decide_eq_false (List.findIdx?_eq_none_iff.mp h y hy) hkey

namespace Erasures

variable {es : Erasures} {x : String} {e : Erased}

theorem get?_eq_some (hd : (es.map (·.1)).Nodup) (h : (x, e) ∈ es) : es.get? x = some e := by
  have hsome : (es.reverse.find? (·.1 = x)).isSome := by
    rw [List.find?_isSome]
    exact ⟨(x, e), by simpa using h, by simp⟩
  obtain ⟨y, hy⟩ := Option.isSome_iff_exists.mp hsome
  have hmem : y ∈ es := by simpa using List.mem_of_find?_eq_some hy
  have hkey : y.1 = x := by simpa using List.find?_some hy
  obtain rfl : y = (x, e) := List.inj_on_of_nodup_map hd hmem h hkey
  simp [get?, hy]

theorem get?_nil (x : String) : Erasures.get? [] x = none := rfl

theorem get?_eq_none (h : x ∉ es.map (·.1)) : es.get? x = none := by
  have hnone : es.reverse.find? (·.1 = x) = none := by
    rw [List.find?_eq_none]
    intro y hy hkey
    exact h (List.mem_map.mpr ⟨y, by simpa using hy, by simpa using hkey⟩)
  simp [get?, hnone]

variable {params : List TypeParameter} (hkeys : es.map (·.1) = params.map (·.name))
include hkeys

theorem get?_of_findIdx? (hd : (es.map (·.1)).Nodup) {place : Nat}
    (h : params.findIdx? (·.name = x) = some place) :
    ∃ hlt : place < es.length, es.get? x = some es[place].2 := by
  obtain ⟨hlt, hname, _⟩ := List.findIdx?_eq_some_iff_getElem.mp h
  have hlt' : place < es.length := by
    have hlen : es.length = params.length := by simpa using congrArg List.length hkeys
    omega
  have hkey : es[place].1 = x := by
    have hplace := List.getElem_of_eq hkeys (i := place) (by simpa using hlt')
    rw [List.getElem_map, List.getElem_map] at hplace
    rw [hplace]
    exact of_decide_eq_true hname
  refine ⟨hlt', get?_eq_some hd ?_⟩
  rw [← hkey]
  exact List.getElem_mem hlt'

theorem get?_of_findIdx?_eq_none (h : params.findIdx? (·.name = x) = none) : es.get? x = none := by
  apply get?_eq_none
  rw [hkeys]
  exact not_mem_map_of_findIdx? h

end Erasures

theorem length_visited_le {visited : List Nat} {n : Nat} (hnodup : visited.Nodup)
    (hlt : ∀ i ∈ visited, i < n) : visited.length ≤ n := by
  have hsub : visited ⊆ List.range n := fun i hi => List.mem_range.mpr (hlt i hi)
  simpa using (List.subperm_of_subset hnodup hsub).length_le

theorem find?_eq_some {vars : List TypeVarDecl} {d : TypeVarDecl} (hd : (vars.map (·.symbol)).Nodup)
    (h : d ∈ vars) :
    TypeVarDecl.find? d.symbol vars = some d := by
  have hsome : (TypeVarDecl.find? d.symbol vars).isSome := by
    rw [TypeVarDecl.find?, List.find?_isSome]
    exact ⟨d, h, by simp⟩
  obtain ⟨y, hy⟩ := Option.isSome_iff_exists.mp hsome
  have hmem : y ∈ vars := List.mem_of_find?_eq_some hy
  have hkey : y.symbol = d.symbol := Store.symbol_of_find? hy
  obtain rfl : y = d := List.inj_on_of_nodup_map hd hmem h hkey
  exact hy

namespace Script

variable {A : Answers} {sur sur' : Surroundings} {params : List TypeParameter}

/-- The erasure at a place of the list, by the chain of first bounds. -/
inductive Erases (A : Answers) (sur : Surroundings) (params : List TypeParameter) :
    Nat → Erased → Prop
  | unbounded {place p} (hp : params[place]? = some p) (hb : p.bounds.head? = none) :
      Erases A sur params place .object
  | own {place p name next e} (hp : params[place]? = some p)
      (hb : p.bounds.head? = some (.variable name))
      (hn : params.findIdx? (·.name = name) = some next) (hnext : Erases A sur params next e) :
      Erases A sur params place e
  | outside {place p name v} (hp : params[place]? = some p)
      (hb : p.bounds.head? = some (.variable name))
      (hn : params.findIdx? (·.name = name) = none)
      (hv : (variableNamed sur name).Ends A (some v)) :
      Erases A sur params place v.erasure
  | cls {place p c id} (hp : params[place]? = some p) (hb : p.bounds.head? = some (.classType c))
      (hid : (classNamed c).Ends A (some id)) : Erases A sur params place (.cls id)

theorem erases_unique (hA : A.Definite) {place : Nat} {e e' : Erased}
    (h : Erases A sur params place e) (h' : Erases A sur params place e') : e = e' := by
  induction h with
  | unbounded hp hb => cases h' <;> simp_all
  | own hp hb hn _ ih =>
    cases h' with
    | own hp' hb' hn' hnext' =>
      obtain rfl := Option.some.inj (hp.symm.trans hp')
      obtain rfl := TypeTree.variable.inj (Option.some.inj (hb.symm.trans hb'))
      obtain rfl := Option.some.inj (hn.symm.trans hn')
      exact ih hnext'
    | unbounded _ _ | outside _ _ _ _ | cls _ _ _ => grind
  | outside hp hb hn hv =>
    cases h' with
    | outside hp' hb' hn' hv' =>
      obtain rfl := Option.some.inj (hp.symm.trans hp')
      obtain rfl := TypeTree.variable.inj (Option.some.inj (hb.symm.trans hb'))
      rw [variableNamed_unique hA hv hv']
    | unbounded _ _ | own _ _ _ _ | cls _ _ _ => grind
  | cls hp hb hid =>
    cases h' with
    | cls hp' hb' hid' =>
      obtain rfl := Option.some.inj (hp.symm.trans hp')
      obtain rfl := TypeTree.classType.inj (Option.some.inj (hb.symm.trans hb'))
      rw [hA.cls _ _ _ (ends_classNamed hid) (ends_classNamed hid')]
    | unbounded _ _ | own _ _ _ _ | outside _ _ _ _ => grind

theorem erases_of_ends {steps place : Nat} {visited : List Nat} {e : Erased}
    (h : (parameterErasure sur params steps visited place).Ends A (some e))
    (hplace : place < params.length) (hnodup : visited.Nodup)
    (hvisited : ∀ i ∈ visited, i < params.length)
    (hsteps : params.length + 2 ≤ steps + visited.length) : Erases A sur params place e := by
  induction steps generalizing place visited with
  | zero =>
    have hlen := length_visited_le hnodup hvisited
    omega
  | succ steps ih =>
    have hp : params[place]? = some params[place] := List.getElem?_eq_getElem hplace
    rw [parameterErasure, hp] at h
    rcases hb : params[place].bounds.head? with _ | ⟨b | c | name | c⟩
    · simp only [hb] at h
      obtain rfl := Option.some.inj h
      exact .unbounded hp hb
    · simp [hb] at h
    · simp only [hb] at h
      obtain ⟨id, hid, he⟩ := ends_bind_some.mp h
      obtain rfl := Option.some.inj he
      exact .cls hp hb hid
    · simp only [hb] at h
      cases hn : params.findIdx? (·.name = name) with
      | none =>
        simp only [hn] at h
        obtain ⟨v, hv, he⟩ := ends_bind_some.mp h
        obtain rfl := Option.some.inj he
        exact .outside hp hb hn hv
      | some next =>
        simp only [hn] at h
        by_cases hmem : place ∈ visited
        · simp [hmem] at h
        · rw [if_neg hmem] at h
          have hnext : next < params.length := (List.findIdx?_eq_some_iff_getElem.mp hn).1
          refine .own hp hb hn (ih h hnext (List.nodup_cons.mpr ⟨hmem, hnodup⟩) ?_ ?_)
          · intro i hi
            rcases List.mem_cons.mp hi with rfl | hi
            · exact hplace
            · exact hvisited i hi
          · rw [List.length_cons]
            omega
    · simp [hb] at h

theorem ends_parameterErasures {es : Erasures}
    (h : (parameterErasures sur params).Ends A (some es)) :
    es.map (·.1) = params.map (·.name) ∧
      ∀ i (hi : i < es.length), Erases A sur params i es[i].2 := by
  have hall := ends_mapM_some.mp h
  obtain ⟨hlen, hget⟩ := List.forall₂_iff_get.mp hall
  have hlen' : es.length = params.length := by simpa using hlen.symm
  have hat : ∀ i (hi : i < es.length) (hi' : i < params.length),
      es[i].1 = params[i].name ∧ Erases A sur params i es[i].2 := by
    intro i hi hi'
    have hend := hget i (by simpa [hlen'] using hi) hi
    simp only [List.get_eq_getElem, List.getElem_zip, List.getElem_range, ends_bind_some] at hend
    obtain ⟨e, he, heq⟩ := hend
    have hpair : (_, e) = es[i] := (Option.some.inj heq).symm
    rw [← hpair]
    exact ⟨rfl, erases_of_ends he hi' .nil (by simp) (by simp)⟩
  refine ⟨?_, fun i hi => (hat i hi (hlen' ▸ hi)).2⟩
  apply List.ext_getElem (by simpa using hlen')
  intro i hi hi'
  simpa using (hat i (by simpa using hi) (by simpa using hi')).1

/-- `sur'` has one list of type parameters, declared at `source`, more than `sur`. -/
structure Extends (sur sur' : Surroundings) (source : VariableSource) (es : Erasures) : Prop where
  own : ∀ x e, es.get? x = some e → variableNamed sur' x = pure ⟨x, source, e⟩
  outside : ∀ x, es.get? x = none → variableNamed sur' x = variableNamed sur x

theorem extends_class {es : Erasures} (hc : sur.classVariables = [])
    (hm : sur.methodVariables = []) :
    Extends sur { sur with classVariables := es } (.type sur.declaring) es := by
  refine ⟨?_, ?_⟩
  · intro x e he
    simp [variableNamed, hm, he, Erasures.get?_nil]
  · intro x he
    simp [variableNamed, hm, hc, he, Erasures.get?_nil]

theorem extends_method {es : Erasures} (hm : sur.methodVariables = []) :
    Extends sur { sur with methodVariables := es } .method es := by
  refine ⟨?_, ?_⟩
  · intro x e he
    simp [variableNamed, he]
  · intro x he
    simp [variableNamed, hm, he, Erasures.get?_nil]

theorem ends_typeVariable {p : TypeParameter} {d : TypeVarDecl}
    (h : (typeVariable sur p).Ends A (some d)) :
    d.symbol = p.name ∧ ((p.bounds = [] ∧ d.bounds = [.object]) ∨
      List.Forall₂ (fun t s => (shape sur t).Ends A (some s)) p.bounds d.bounds) := by
  unfold typeVariable at h
  split at h
  · rename_i hb
    obtain rfl := Option.some.inj h
    exact ⟨rfl, Or.inl ⟨hb, rfl⟩⟩
  · obtain ⟨bs, hbs, h⟩ := ends_bind_some.mp h
    obtain rfl := Option.some.inj h
    exact ⟨rfl, Or.inr (ends_mapM_some.mp hbs)⟩

theorem ends_firstBound {p : TypeParameter} {d : TypeVarDecl} {t : TypeTree}
    (h : (typeVariable sur p).Ends A (some d)) (ht : p.bounds.head? = some t) :
    ∃ s, (shape sur t).Ends A (some s) ∧ d.bounds.head? = some s ∧
      d.erasure = s.erasure?.getD .object := by
  rcases (ends_typeVariable h).2 with ⟨hnil, _⟩ | hall
  · simp [hnil] at ht
  · obtain ⟨ts, hts⟩ := List.head?_eq_some_iff.mp ht
    rw [hts] at hall
    cases hb : d.bounds with
    | nil =>
      rw [hb] at hall
      cases hall
    | cons s ss =>
      rw [hb] at hall
      cases hall with
      | cons hs _ => exact ⟨s, hs, rfl, by simp [TypeVarDecl.erasure, hb]⟩

theorem ends_classShape {c : ClassTree} {s : Shape} (h : (classShape sur c).Ends A (some s)) :
    ∃ owner raw as, (classNamed c).Ends A (some raw) ∧ s = applyTo owner raw as := by
  cases c with
  | top package name as =>
    rw [classShape] at h
    obtain ⟨raw, hraw, h⟩ := ends_bind_some.mp h
    obtain ⟨as', _, hs⟩ := ends_bind_some.mp h
    exact ⟨none, raw, as', hraw, Option.some.inj hs⟩
  | member outer name as =>
    rw [classShape] at h
    obtain ⟨owner, _, h⟩ := ends_bind_some.mp h
    obtain ⟨raw, hraw, h⟩ := ends_bind_some.mp h
    obtain ⟨as', _, hs⟩ := ends_bind_some.mp h
    exact ⟨some owner, raw, as', hraw, Option.some.inj hs⟩

theorem erasure?_applyTo (owner : Option Shape) (raw : ClassId) (as : List Shape) :
    (applyTo owner raw as).erasure? = some (.cls raw) := by
  unfold applyTo
  split
  · rfl
  · split <;> rfl

theorem core?_applyTo (owner : Option Shape) (raw : ClassId) (as : List Shape) :
    (applyTo owner raw as).core? = none := by
  unfold applyTo
  split
  · rfl
  · split <;> rfl

theorem erasure?_of_classShape {c : ClassTree} {s : Shape}
    (h : (classShape sur c).Ends A (some s)) :
    ∃ id, (classNamed c).Ends A (some id) ∧ s.erasure? = some (.cls id) := by
  obtain ⟨owner, raw, as, hraw, rfl⟩ := ends_classShape h
  exact ⟨raw, hraw, erasure?_applyTo owner raw as⟩

theorem core?_of_classShape {c : ClassTree} {s : Shape} (h : (classShape sur c).Ends A (some s)) :
    s.core? = none := by
  obtain ⟨owner, raw, as, _, rfl⟩ := ends_classShape h
  exact core?_applyTo owner raw as

theorem head?_of_unbounded {p : TypeParameter} {d : TypeVarDecl}
    (h : (typeVariable sur p).Ends A (some d)) (hb : p.bounds.head? = none) :
    d.bounds.head? = some .object := by
  rw [typeVariable, List.head?_eq_none_iff.mp hb] at h
  obtain rfl := Option.some.inj h
  rfl

theorem ends_firstVariable {p : TypeParameter} {d : TypeVarDecl} {name : String}
    (h : (typeVariable sur p).Ends A (some d)) (hb : p.bounds.head? = some (.variable name)) :
    ∃ v, (variableNamed sur name).Ends A (some v) ∧ d.bounds.head? = some (.variable v) ∧
      d.erasure = v.erasure := by
  obtain ⟨s, hs, hhead, herasure⟩ := ends_firstBound h hb
  rw [shape] at hs
  obtain ⟨v, hv, hs⟩ := ends_bind_some.mp hs
  obtain rfl := Option.some.inj hs
  exact ⟨v, hv, hhead, herasure⟩

theorem ends_firstClass {p : TypeParameter} {d : TypeVarDecl} {c : ClassTree}
    (h : (typeVariable sur p).Ends A (some d)) (hb : p.bounds.head? = some (.classType c)) :
    ∃ s id, (classNamed c).Ends A (some id) ∧ d.bounds.head? = some s ∧ s.core? = none ∧
      s.erasure? = some (.cls id) ∧ d.erasure = .cls id := by
  obtain ⟨s, hs, hhead, herasure⟩ := ends_firstBound h hb
  rw [shape] at hs
  obtain ⟨id, hid, hcls⟩ := erasure?_of_classShape hs
  rw [hcls] at herasure
  exact ⟨s, id, hid, hhead, core?_of_classShape hs, hcls, herasure⟩

theorem erasure_of_erases (hA : A.Definite) {source : VariableSource} {es : Erasures}
    (hext : Extends sur sur' source es) (hes : (parameterErasures sur params).Ends A (some es))
    (hd : (es.map (·.1)).Nodup) {place : Nat} {p : TypeParameter} {d : TypeVarDecl} {e : Erased}
    (hp : params[place]? = some p) (he : Erases A sur params place e)
    (hdecl : (typeVariable sur' p).Ends A (some d)) : d.erasure = e := by
  obtain ⟨hkeys, herases⟩ := ends_parameterErasures hes
  cases he with
  | unbounded hp' hb =>
    obtain rfl := Option.some.inj (hp.symm.trans hp')
    rw [TypeVarDecl.erasure, head?_of_unbounded hdecl hb]
    rfl
  | own hp' hb hn hnext =>
    obtain rfl := Option.some.inj (hp.symm.trans hp')
    obtain ⟨hlt, hget⟩ := Erasures.get?_of_findIdx? hkeys hd hn
    obtain ⟨v, hv, _, herasure⟩ := ends_firstVariable hdecl hb
    rw [hext.own _ _ hget] at hv
    obtain rfl := Option.some.inj hv
    rw [herasure]
    exact erases_unique hA (herases _ hlt) hnext
  | outside hp' hb hn hv =>
    obtain rfl := Option.some.inj (hp.symm.trans hp')
    obtain ⟨w, hw, _, herasure⟩ := ends_firstVariable hdecl hb
    rw [hext.outside _ (Erasures.get?_of_findIdx?_eq_none hkeys hn)] at hw
    rw [herasure, variableNamed_unique hA hv hw]
  | cls hp' hb hid =>
    obtain rfl := Option.some.inj (hp.symm.trans hp')
    obtain ⟨_, id', hid', _, _, _, herasure⟩ := ends_firstClass hdecl hb
    rw [herasure, hA.cls _ _ _ (ends_classNamed hid) (ends_classNamed hid')]

section Declared

variable (hA : A.Definite) {source : VariableSource} {es : Erasures} {vars : List TypeVarDecl}
  (hext : Extends sur sur' source es) (hes : (parameterErasures sur params).Ends A (some es))
  (hvars : List.Forall₂ (fun p d => (typeVariable sur' p).Ends A (some d)) params vars)
  (hd : (vars.map (·.symbol)).Nodup)
include hA hext hes hvars hd

omit hA hext hes hd in
theorem symbols_of_parameters : vars.map (·.symbol) = params.map (·.name) := by
  induction hvars with
  | nil => rfl
  | cons h _ ih => simp [ih, (ends_typeVariable h).1]

/-- The erasures that references carry are those of the declarations. -/
theorem erasures_eq_declared : es = vars.map fun d => (d.symbol, d.erasure) := by
  obtain ⟨hkeys, herases⟩ := ends_parameterErasures hes
  have hsymbols := symbols_of_parameters hvars
  obtain ⟨hlenv, hget⟩ := List.forall₂_iff_get.mp hvars
  have hlene : es.length = params.length := by simpa using congrArg List.length hkeys
  have hnodup : (es.map (·.1)).Nodup := by rw [hkeys, ← hsymbols]; exact hd
  apply List.ext_getElem (by simp [hlene, hlenv])
  intro i hi hi'
  have hip : i < params.length := hlene ▸ hi
  have hiv : i < vars.length := hlenv ▸ hip
  obtain ⟨hname, hbounds⟩ := ends_typeVariable (hget i hip hiv)
  simp only [List.get_eq_getElem] at hname hbounds
  have hkey : es[i].1 = params[i].name := by
    have := List.getElem_of_eq hkeys (i := i) (by simpa using hi)
    simpa using this
  have herasure : vars[i].erasure = es[i].2 :=
    erasure_of_erases hA hext hes hnodup (List.getElem?_eq_getElem hip) (herases i hi)
      (hget i hip hiv)
  rw [List.getElem_map, hname, herasure, ← hkey]

theorem knows_declared {v : TypeVariable} (h : sur'.Knows A v) :
    Scope.ofDecls source vars v.symbol = some v ∨
      (Scope.ofDecls source vars v.symbol = none ∧ sur.Knows A v) := by
  have heq := erasures_eq_declared hA hext hes hvars hd
  have hkeys : es.map (·.1) = vars.map (·.symbol) := by
    rw [heq, List.map_map]
    rfl
  cases hf : TypeVarDecl.find? v.symbol vars with
  | some d =>
    left
    have hmem : d ∈ vars := List.mem_of_find?_eq_some hf
    have hsymbol : d.symbol = v.symbol := Store.symbol_of_find? hf
    have hget : es.get? v.symbol = some d.erasure := by
      apply Erasures.get?_eq_some (by rw [hkeys]; exact hd)
      rw [heq, ← hsymbol]
      exact List.mem_map.mpr ⟨d, hmem, rfl⟩
    rw [Surroundings.Knows, hext.own _ _ hget] at h
    rw [Scope.ofDecls, hf, Option.map_some, hsymbol]
    exact h.symm
  | none =>
    right
    have hget : es.get? v.symbol = none := by
      apply Erasures.get?_eq_none
      rw [hkeys]
      intro hmem
      obtain ⟨d, hd, hsymbol⟩ := List.mem_map.mp hmem
      have := List.find?_eq_none.mp hf d hd
      simp [hsymbol] at this
    refine ⟨by rw [Scope.ofDecls, hf]; rfl, ?_⟩
    rw [Surroundings.Knows, hext.outside _ hget] at h
    exact h

end Declared

theorem grounded_of_erases (hA : A.Definite) {vars : List TypeVarDecl}
    (hvars : List.Forall₂ (fun p d => (typeVariable sur' p).Ends A (some d)) params vars)
    (hd : (vars.map (·.symbol)).Nodup) {place : Nat} {e : Erased}
    (he : Erases A sur params place e) :
    ∀ p, params[place]? = some p → TypeVarDecl.Grounded vars p.name := by
  have hsymbols := symbols_of_parameters hvars
  have hdeclared : ∀ {place : Nat} {p : TypeParameter}, params[place]? = some p →
      ∃ d, (typeVariable sur' p).Ends A (some d) ∧ TypeVarDecl.find? p.name vars = some d := by
    intro place p hp
    obtain ⟨hplace, rfl⟩ := List.getElem?_eq_some_iff.mp hp
    obtain ⟨hlen, hget⟩ := List.forall₂_iff_get.mp hvars
    have hend := hget place hplace (hlen ▸ hplace)
    refine ⟨_, hend, ?_⟩
    have hfind := find?_eq_some hd (List.get_mem vars ⟨place, hlen ▸ hplace⟩)
    rwa [(ends_typeVariable hend).1] at hfind
  induction he with
  | unbounded hp hb =>
    intro p hp'
    obtain rfl := Option.some.inj (hp.symm.trans hp')
    obtain ⟨d, hend, hfind⟩ := hdeclared hp
    exact TypeVarDecl.grounded_of_bound hfind (head?_of_unbounded hend hb) rfl
  | own hp hb hn _ ih =>
    intro p hp'
    obtain rfl := Option.some.inj (hp.symm.trans hp')
    obtain ⟨d, hend, hfind⟩ := hdeclared hp
    obtain ⟨v, hv, hhead, _⟩ := ends_firstVariable hend hb
    obtain ⟨hlt, hname, _⟩ := List.findIdx?_eq_some_iff_getElem.mp hn
    refine TypeVarDecl.grounded_of_variable hfind hhead ?_
    rw [symbol_of_variableNamed hA hv, ← of_decide_eq_true hname]
    exact ih _ (List.getElem?_eq_getElem hlt)
  | outside hp hb hn _ =>
    intro p hp'
    obtain rfl := Option.some.inj (hp.symm.trans hp')
    obtain ⟨d, hend, hfind⟩ := hdeclared hp
    obtain ⟨v, hv, hhead, _⟩ := ends_firstVariable hend hb
    refine TypeVarDecl.grounded_of_variable hfind hhead ?_
    rw [symbol_of_variableNamed hA hv]
    apply TypeVarDecl.grounded_of_undeclared
    rw [hsymbols]
    exact not_mem_map_of_findIdx? hn
  | cls hp hb _ =>
    intro p hp'
    obtain rfl := Option.some.inj (hp.symm.trans hp')
    obtain ⟨d, hend, hfind⟩ := hdeclared hp
    obtain ⟨s, _, _, hhead, hcore, _⟩ := ends_firstClass hend hb
    exact TypeVarDecl.grounded_of_bound hfind hhead hcore

theorem grounded_of_parameterErasures (hA : A.Definite) {vars : List TypeVarDecl} {es : Erasures}
    (hvars : List.Forall₂ (fun p d => (typeVariable sur' p).Ends A (some d)) params vars)
    (hd : (vars.map (·.symbol)).Nodup) (hes : (parameterErasures sur params).Ends A (some es))
    (symbol : String) : TypeVarDecl.Grounded vars symbol := by
  by_cases hmem : symbol ∈ vars.map (·.symbol)
  · rw [symbols_of_parameters hvars] at hmem
    obtain ⟨p, hp, rfl⟩ := List.mem_map.mp hmem
    obtain ⟨place, hplace, hp⟩ := List.getElem_of_mem hp
    obtain ⟨hkeys, herases⟩ := ends_parameterErasures hes
    have hlen : es.length = params.length := by simpa using congrArg List.length hkeys
    exact grounded_of_erases hA hvars hd (herases place (hlen ▸ hplace)) p
      (by rw [List.getElem?_eq_getElem hplace, hp])
  · exact TypeVarDecl.grounded_of_undeclared hmem

end Script

end JvmTypes.Loader
