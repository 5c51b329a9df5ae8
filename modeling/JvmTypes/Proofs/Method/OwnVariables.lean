import JvmTypes.Method
import JvmTypes.Proofs.Shape.Substitution
import Mathlib.Data.List.Perm.Subperm
/-!
# Erasures of a method's own variables

The erasure of a variable that a method declares follows the chain of first bounds. Where the chain
ends, the steps and the visited symbols that bound the walk have no part in the result, and the
erasure is that of the first bound.
-/
namespace JvmTypes

def Shape.core? : Shape → Option TypeVariable
  | .array c => c.core?
  | .variable v => some v
  | _ => none

theorem Shape.mem_references_of_core? {t : Shape} {v : TypeVariable} (h : v ∈ t.core?) :
    v ∈ t.references := by
  induction t with
  | array c ih => exact ih h
  | reference w =>
    obtain rfl := Option.some.inj h
    simp
  | plain e => cases h
  | applied raw as o _ _ => cases h
  | upper b _ => cases h
  | lower b _ => cases h

namespace TypeVarDecl

/-- The variable of the same list that the first bound of `symbol` comes down to. -/
def next? (vars : List TypeVarDecl) (symbol : String) : Option String :=
  ((find? symbol vars).bind (·.bounds.head?)).bind fun b =>
    b.core?.bind fun v => if v.source = .method then some v.symbol else none

/-- The chain of first bounds that starts with `symbol` ends. -/
inductive Grounded (vars : List TypeVarDecl) : String → Prop
  | intro {symbol : String} (h : ∀ next ∈ next? vars symbol, Grounded vars next) : Grounded vars
      symbol

/-- The symbols of a chain that ends, one after the other. -/
inductive Chain (vars : List TypeVarDecl) : String → List String → Prop
  | last {symbol} (h : next? vars symbol = none) : Chain vars symbol [symbol]
  | step {symbol next rest} (h : next? vars symbol = some next) (hrest : Chain vars next rest) :
      Chain vars symbol (symbol :: rest)

variable {vars : List TypeVarDecl} {symbol : String} {chain : List String}

theorem Grounded.exists_chain (h : Grounded vars symbol) : ∃ chain, Chain vars symbol chain := by
  induction h with
  | @intro symbol _ ih =>
    cases hn : next? vars symbol with
    | none => exact ⟨[symbol], .last hn⟩
    | some next =>
      obtain ⟨rest, hrest⟩ := ih next hn
      exact ⟨symbol :: rest, .step hn hrest⟩

theorem Chain.unique (h : Chain vars symbol chain) {chain' : List String}
    (h' : Chain vars symbol chain') :
    chain = chain' := by
  induction h generalizing chain' with
  | last hn => cases h' with
    | last _ => rfl
    | step hn' _ => simp [hn] at hn'
  | step hn _ ih => cases h' with
    | last hn' => simp [hn] at hn'
    | step hn' hrest' =>
      obtain rfl := Option.some.inj (hn.symm.trans hn')
      rw [ih hrest']

theorem Chain.suffix (h : Chain vars symbol chain) {s : String} (hs : s ∈ chain) :
    ∃ rest, Chain vars s rest ∧ rest.length ≤ chain.length := by
  induction h with
  | @last symbol hn =>
    obtain rfl : s = symbol := by simpa using hs
    exact ⟨[s], .last hn, Nat.le_refl _⟩
  | @step symbol next rest hn hrest ih =>
    rcases List.mem_cons.mp hs with rfl | hs
    · exact ⟨_, .step hn hrest, Nat.le_refl _⟩
    · obtain ⟨rest', hrest', hle⟩ := ih hs
      exact ⟨rest', hrest', by rw [List.length_cons]; omega⟩

theorem Chain.nodup (h : Chain vars symbol chain) : chain.Nodup := by
  induction h with
  | last _ => simp
  | step hn hrest ih =>
    refine List.nodup_cons.mpr ⟨?_, ih⟩
    intro hmem
    obtain ⟨rest', hrest', hle⟩ := hrest.suffix hmem
    rw [hrest'.unique (.step hn hrest), List.length_cons] at hle
    omega

theorem mem_symbols_of_next? {next : String} (h : next? vars symbol = some next) :
    symbol ∈ vars.map (·.symbol) := by
  obtain ⟨b, hb, _⟩ := Option.bind_eq_some_iff.mp h
  obtain ⟨d, hd, _⟩ := Option.bind_eq_some_iff.mp hb
  have hsymbol : d.symbol = symbol := by simpa using List.find?_some hd
  exact List.mem_map.mpr ⟨d, List.mem_of_find?_eq_some hd, hsymbol⟩

theorem grounded_of_undeclared (h : symbol ∉ vars.map (·.symbol)) : Grounded vars symbol :=
  ⟨fun _ hnext => absurd (mem_symbols_of_next? hnext) h⟩

theorem Chain.declared (h : Chain vars symbol chain) :
    ∀ s ∈ chain.dropLast, s ∈ vars.map (·.symbol) := by
  induction h with
  | last _ => simp
  | step hn hrest ih =>
    rw [List.dropLast_cons_of_ne_nil (by cases hrest <;> simp)]
    intro s hs
    rcases List.mem_cons.mp hs with rfl | hs
    · exact mem_symbols_of_next? hn
    · exact ih s hs

theorem Chain.length_le (h : Chain vars symbol chain) : chain.length ≤ vars.length + 1 := by
  have hnodup : chain.dropLast.Nodup := h.nodup.sublist (List.dropLast_sublist chain)
  have hle := (List.subperm_of_subset hnodup h.declared).length_le
  rw [List.length_dropLast, List.length_map] at hle
  omega

theorem next?_of_bound {b : Shape} {v : TypeVariable}
    (hb : (find? symbol vars).bind (·.bounds.head?) = some b) (hv : v ∈ b.core?)
    (hsource : v.source = .method) : next? vars symbol = some v.symbol := by
  rw [next?, hb, Option.bind_some, Option.mem_def.mp hv]
  simp [hsource]

theorem grounded_of_bound {d : TypeVarDecl} {b : Shape} (hd : find? symbol vars = some d)
    (hb : d.bounds.head? = some b) (hcore : b.core? = none) : Grounded vars symbol := by
  refine .intro fun next hnext => ?_
  simp [next?, hd, hb, hcore] at hnext

theorem grounded_of_variable {d : TypeVarDecl} {v : TypeVariable}
    (hd : find? symbol vars = some d) (hb : d.bounds.head? = some (.variable v))
    (hv : Grounded vars v.symbol) : Grounded vars symbol := by
  refine .intro fun next hnext => ?_
  obtain rfl : v.symbol = next := by
    simp only [next?, hd, Option.bind_some, hb, Shape.core?] at hnext
    split at hnext
    · exact Option.some.inj hnext
    · cases hnext
  exact hv

end TypeVarDecl

namespace Substitution

open TypeVarDecl

variable {σ : Substitution} {vars : List TypeVarDecl} {symbol : String} {chain : List String}

theorem boundErasure_congr {own own' : String → Erased} {b : Shape}
    (h : ∀ v ∈ b.core?, v.source = .method → own v.symbol = own' v.symbol) :
    σ.boundErasure own b = σ.boundErasure own' b := by
  induction b with
  | array c ih => rw [boundErasure, boundErasure, ih h]
  | reference v =>
    rw [boundErasure, boundErasure]
    split
    · exact h v rfl ‹_›
    · rfl
  | plain _ => rfl
  | applied _ _ _ _ _ => rfl
  | upper _ _ => rfl
  | lower _ _ => rfl

/-- Where plain types and classes stay what they are, a relation that arrays inherit holds between a
type and what its erasure becomes if it holds for the variable at its core. -/
theorem relates_boundErasure {R : Erased → Erased → Prop} {own : String → Erased}
    (hrefl : ∀ e, R e e) (harray : ∀ d e, R d e → R (.array d) (.array e))
    (herased : ∀ e, σ.erased e = .plain e) (hraw : ∀ id, σ.raw id = id) {t : Shape} {e : Erased}
    (he : t.erasure? = some e)
    (hcore : ∀ v ∈ t.core?, R v.erasure (σ.boundErasure own (.variable v))) :
    R e (σ.boundErasure own t) := by
  induction t generalizing e with
  | plain e' =>
    obtain rfl := Option.some.inj he
    rw [boundErasure, herased]
    exact hrefl _
  | array c ih =>
    obtain ⟨d, hd, rfl⟩ := Option.map_eq_some_iff.mp he
    exact harray d _ (ih hd hcore)
  | applied raw as o _ _ =>
    obtain rfl := Option.some.inj he
    rw [boundErasure, hraw]
    exact hrefl _
  | upper b _ => cases he
  | lower b _ => cases he
  | reference v =>
    obtain rfl := Option.some.inj he
    exact hcore v rfl

theorem chainErasure_succ {n : Nat} {visited : List String} (h : symbol ∉ visited) :
    σ.chainErasure vars (n + 1) visited symbol = (((find? symbol vars).bind (·.bounds.head?)).map
      (σ.boundErasure (σ.chainErasure vars n (symbol :: visited)))).getD .object := by
  rw [chainErasure, if_neg h]
  cases (find? symbol vars).bind (·.bounds.head?) <;> rfl

theorem firstErasure_congr {own own' : String → Erased}
    (h : ∀ next, next? vars symbol = some next → own next = own' next) :
    (((find? symbol vars).bind (·.bounds.head?)).map (σ.boundErasure own)).getD .object =
      (((find? symbol vars).bind (·.bounds.head?)).map (σ.boundErasure own')).getD .object := by
  congr 1
  apply Option.map_congr
  intro b hb
  apply boundErasure_congr
  intro v hcore hsource
  exact h v.symbol (next?_of_bound hb hcore hsource)

theorem chainErasure_eq (h : Chain vars symbol chain) {m n : Nat} {us vs : List String}
    (hm : chain.length ≤ m) (hn : chain.length ≤ n) (hu : ∀ s ∈ chain, s ∉ us)
    (hv : ∀ s ∈ chain, s ∉ vs) :
    σ.chainErasure vars m us symbol = σ.chainErasure vars n vs symbol := by
  induction h generalizing m n us vs with
  | @last symbol hlast =>
    obtain ⟨m, rfl⟩ : ∃ k, m = k + 1 := ⟨m - 1, by simp at hm; omega⟩
    obtain ⟨n, rfl⟩ : ∃ k, n = k + 1 := ⟨n - 1, by simp at hn; omega⟩
    rw [chainErasure_succ (hu symbol (by simp)), chainErasure_succ (hv symbol (by simp))]
    apply firstErasure_congr
    intro next hnext
    rw [hlast] at hnext
    cases hnext
  | @step symbol next rest hnext hrest ih =>
    obtain ⟨hfresh, _⟩ := List.nodup_cons.mp (Chain.step hnext hrest).nodup
    rw [List.length_cons] at hm hn
    obtain ⟨m, rfl⟩ : ∃ k, m = k + 1 := ⟨m - 1, by omega⟩
    obtain ⟨n, rfl⟩ : ∃ k, n = k + 1 := ⟨n - 1, by omega⟩
    rw [chainErasure_succ (hu symbol (by simp)), chainErasure_succ (hv symbol (by simp))]
    apply firstErasure_congr
    intro next' hnext'
    obtain rfl := Option.some.inj (hnext.symm.trans hnext')
    have hne : ∀ s ∈ rest, s ≠ symbol := fun s hs he => hfresh (he ▸ hs)
    refine ih (by omega) (by omega) ?_ ?_
    · intro s hs
      simpa [hne s hs] using hu s (by simp [hs])
    · intro s hs
      simpa [hne s hs] using hv s (by simp [hs])

theorem ownErasure_eq (h : Grounded vars symbol) :
    σ.ownErasure vars symbol = (((find? symbol vars).bind (·.bounds.head?)).map
      (σ.boundErasure (σ.ownErasure vars))).getD .object := by
  rw [ownErasure, chainErasure_succ (by simp)]
  apply firstErasure_congr
  intro next hnext
  obtain ⟨chain, hchain⟩ := h.exists_chain
  cases hchain with
  | last hlast =>
    rw [hlast] at hnext
    cases hnext
  | step hnext' hrest =>
    have hstep := Chain.step hnext' hrest
    obtain rfl := Option.some.inj (hnext'.symm.trans hnext)
    have hlen := hstep.length_le
    rw [List.length_cons] at hlen
    refine chainErasure_eq hrest (by omega) (by omega) ?_ (by simp)
    intro s hs he
    obtain rfl : s = symbol := by simpa using he
    exact (List.nodup_cons.mp hstep.nodup).1 hs

end Substitution

end JvmTypes
