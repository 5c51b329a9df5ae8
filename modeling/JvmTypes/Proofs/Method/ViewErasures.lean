import JvmTypes.Proofs.Chain
import JvmTypes.Proofs.Members.Regularity
import Mathlib.Data.Fintype.Card
import Mathlib.Order.WellFounded
/-!
# Erasures of own variables in a view

A view works out the erasures of the variables of a method along the chains of first bounds in the
declaration. Where no chain runs in a circle, what it finds is the erasure of the first bound that
the view itself shows. On a circle it stops at the first variable that comes again.
-/
namespace JvmTypes

namespace TypeVarDecl

variable {vars : List TypeVarDecl} {symbol : String}

/-- No chain of first bounds comes back to a variable. -/
def AcyclicBounds (vars : List TypeVarDecl) : Prop :=
  ∀ symbol, ¬ Relation.TransGen (Linked (next? vars)) symbol symbol

theorem grounded_of_acyclic (h : AcyclicBounds vars) (symbol : String) : Grounded vars symbol := by
  let Declared := { s : String // s ∈ vars.map (·.symbol) }
  let follows (a b : Declared) : Prop := Relation.TransGen (Linked (next? vars)) b.1 a.1
  have hfinite : Finite Declared := inferInstanceAs (Finite { s // s ∈ vars.map (·.symbol) })
  have htrans : IsTrans Declared follows := ⟨fun _ _ _ hab hbc => hbc.trans hab⟩
  have hirrefl : Std.Irrefl follows := ⟨fun a => h a.1⟩
  have hwf : WellFounded follows := Finite.wellFounded_of_trans_of_irrefl follows
  have hdeclared : ∀ s : Declared, Grounded vars s.1 := by
    intro s
    induction s using hwf.induction with
    | _ s ih =>
      constructor
      intro next hnext
      by_cases hmem : next ∈ vars.map (·.symbol)
      · exact ih ⟨next, hmem⟩ (.single hnext)
      · exact grounded_of_undeclared hmem
  by_cases hmem : symbol ∈ vars.map (·.symbol)
  · exact hdeclared ⟨symbol, hmem⟩
  · exact grounded_of_undeclared hmem

end TypeVarDecl

namespace Substitution

open TypeVarDecl

variable {σ : Substitution} {vars : List TypeVarDecl}

mutual

/-- The walk along first bounds that finds the erasure of a variable, with the symbols it has
visited and nothing to bound its steps. -/
inductive Erases (σ : Substitution) (vars : List TypeVarDecl) :
    (visited : List String) → (symbol : String) → Erased → Prop
  | circle {visited symbol} (h : symbol ∈ visited) : Erases σ vars visited symbol .object
  | unbounded {visited symbol} (h : symbol ∉ visited)
      (hb : (find? symbol vars).bind (·.bounds.head?) = none) : Erases σ vars visited symbol .object
  | bounded {visited symbol b e} (h : symbol ∉ visited)
      (hb : (find? symbol vars).bind (·.bounds.head?) = some b)
      (he : ErasesBound σ vars (symbol :: visited) b e) : Erases σ vars visited symbol e

inductive ErasesBound (σ : Substitution) (vars : List TypeVarDecl) :
    (visited : List String) → (bound : Shape) → Erased → Prop
  | own {visited v e} (hv : v.source = .method) (h : Erases σ vars visited v.symbol e) :
      ErasesBound σ vars visited (.variable v) e
  | reference {visited v} (hv : v.source ≠ .method) :
      ErasesBound σ vars visited (.variable v) ((σ.var v).erasure?.getD .object)
  | array {visited c e} (h : ErasesBound σ vars visited c e) :
      ErasesBound σ vars visited (.array c) (.array e)
  | applied {visited raw as o} :
      ErasesBound σ vars visited (.applied raw as o) (.cls (σ.raw raw))
  | plain {visited e} :
      ErasesBound σ vars visited (.plain e) ((σ.erased e).erasure?.getD .object)
  | upper {visited b} : ErasesBound σ vars visited (.upper b) .object
  | lower {visited b} : ErasesBound σ vars visited (.lower b) .object

end

theorem erasesBound_boundErasure {own : String → Erased} {visited : List String}
    (hown : ∀ symbol, Erases σ vars visited symbol (own symbol)) (b : Shape) :
    ErasesBound σ vars visited b (σ.boundErasure own b) := by
  induction b with
  | plain e => exact .plain
  | array c ih => exact .array ih
  | applied raw as o _ _ => exact .applied
  | upper b _ => exact .upper
  | lower b _ => exact .lower
  | reference v =>
    rw [boundErasure]
    split
    · exact .own ‹_› (hown v.symbol)
    · exact .reference ‹_›

theorem erases_chainErasure {n : Nat} {visited : List String}
    (hn : (vars.filter (·.symbol ∉ visited)).length < n) (symbol : String) :
    Erases σ vars visited symbol (σ.chainErasure vars n visited symbol) := by
  induction n generalizing visited symbol with
  | zero => omega
  | succ n ih =>
    rw [chainErasure]
    split
    · exact .circle ‹_›
    · rename_i hfresh
      split
      · rename_i b hb
        obtain ⟨v, hv, _⟩ := Option.bind_eq_some_iff.mp hb
        have hsymbol : v.symbol = symbol := by simpa using List.find?_some hv
        have hmem : v ∈ vars.filter (·.symbol ∉ visited) :=
          List.mem_filter.mpr ⟨List.mem_of_find?_eq_some hv, by simpa [hsymbol] using hfresh⟩
        have hfewer : (vars.filter (·.symbol ∉ symbol :: visited)).length <
            (vars.filter (·.symbol ∉ visited)).length := by
          have hsplit : vars.filter (·.symbol ∉ symbol :: visited) =
              (vars.filter (·.symbol ∉ visited)).filter (·.symbol ≠ symbol) := by
            rw [List.filter_filter]
            simp
          rw [hsplit]
          exact List.length_filter_lt_length_iff_exists.mpr ⟨v, hmem, by simp [hsymbol]⟩
        exact .bounded hfresh hb (erasesBound_boundErasure (ih (by omega)) b)
      · exact .unbounded hfresh ‹_›

theorem erases_ownErasure (σ : Substitution) (vars : List TypeVarDecl) (symbol : String) :
    Erases σ vars [] symbol (σ.ownErasure vars symbol) :=
  erases_chainErasure (by simp) symbol

structure BringsNoOwn (σ : Substitution) : Prop where
  var : ∀ v w, v.source ≠ .method → w ∈ (σ.var v).references ∨ w ∈ (σ.argument v).references →
    w.source ≠ .method
  erased : ∀ e, ∀ w ∈ (σ.erased e).references, w.source ≠ .method

theorem erasure_of_mem_retaining (h : σ.BringsNoOwn) {t : Shape} {w : TypeVariable}
    (hw : w ∈ (t.subst (σ.retaining vars)).references) (hsource : w.source = .method) :
    w.erasure = σ.ownErasure vars w.symbol := by
  rcases Shape.mem_references_subst hw with ⟨v, _, hw⟩ | ⟨e, _, hw⟩
  · by_cases hv : v.source = .method
    · simp only [retaining, hv, if_true, Shape.references_reference, List.mem_singleton, or_self]
        at hw
      rw [hw]
    · simp only [retaining, hv, if_false] at hw
      exact absurd hsource (h.var v w hv hw)
  · exact absurd hsource (h.erased e w hw)

/-- A shape that may stand for any type: no wildcard, and without variables of methods. -/
structure IsAnswer (t : Shape) : Prop where
  regular : t.isRegular = true
  foreign : ∀ v ∈ t.references, v.source ≠ .method

/-- The substitutions that methods are seen through: what a type binds, or an answer for each
variable and each plain type and a class for each class. -/
inductive Viewing (s : Store) : Substitution → Prop
  | binding {T : Shape} (hT : IsAnswer T) : Viewing s (Binding.ofShape s T).toSubstitution
  | answers {var : TypeVariable → Shape} {erased : Erased → Shape} {raw : ClassId → ClassId}
      (hvar : ∀ v, v.source ≠ .method → IsAnswer (var v)) (herased : ∀ e, IsAnswer (erased e)) :
      Viewing s { var := var, erased := erased, raw := raw }

namespace Viewing

variable {s : Store}

theorem givesErasures (h : Viewing s σ) : σ.GivesErasures := by
  cases h with
  | binding hT => exact Binding.givesErasures hT.regular
  | answers hvar herased =>
    exact ⟨fun v hv => Shape.erasure?_of_isRegular (hvar v hv).regular,
      fun e => Shape.erasure?_of_isRegular (herased e).regular⟩

theorem bringsNoOwn (h : Viewing s σ) : σ.BringsNoOwn := by
  cases h with
  | binding hT =>
    refine ⟨?_, by simp [Binding.toSubstitution]⟩
    intro v w hv hw
    rcases Binding.references_var hT.regular hw with rfl | hw
    · exact hv
    · exact hT.foreign w hw
  | answers hvar herased =>
    exact ⟨fun v w hv hw => (hvar v hv).foreign w (or_self_iff.mp hw),
      fun e => (herased e).foreign⟩

end Viewing

end Substitution

namespace Method

open Substitution TypeVarDecl

/-- An occurrence of an own variable that the view declares carries the erasure of the first bound
that the view shows, and is what the scope of the view has for the symbol. -/
structure CarriesBound (s : Store) (view : Method) (w : TypeVariable) (v : TypeVarDecl) : Prop where
  erasure : w.erasure = v.erasure
  bound : ∀ b ∈ v.bounds.head?, b.erasure? = some w.erasure
  scope : view.scope s w.symbol = some w

theorem carriesBound_of_mem {s : Store} {m : Method} {σ : Substitution} (T : Shape)
    (hacyclic : AcyclicBounds m.decl.typeVariables) (hregular : m.decl.IsRegular)
    (hσ : Viewing s σ) {t : Shape} (ht : t ∈ (m.through T σ).shapes) {w : TypeVariable}
    (hw : w ∈ t.references) (hsource : w.source = .method) {v : TypeVarDecl}
    (hv : find? w.symbol (m.through T σ).typeVariables = some v) :
    CarriesBound s (m.through T σ) w v := by
  obtain ⟨u, _, rfl⟩ := List.mem_map.mp ht
  have hworked : w.erasure = σ.ownErasure m.decl.typeVariables w.symbol :=
    erasure_of_mem_retaining hσ.bringsNoOwn hw hsource
  rw [typeVariables_eq, find?_mapBounds] at hv
  obtain ⟨d, hd, rfl⟩ := Option.map_eq_some_iff.mp hv
  have hbounds : ∀ b ∈ d.bounds, b.isRegular = true := fun b hb =>
    hregular b (mem_shapes_of_bound (List.mem_of_find?_eq_some hd) hb)
  have herasure : w.erasure = (d.mapBounds (m.through T σ).see).erasure :=
    hworked.trans
      (erasure_retaining hσ.givesErasures hd (grounded_of_acyclic hacyclic w.symbol) hbounds).symm
  refine ⟨herasure, ?_, ?_⟩
  · intro b hb
    obtain ⟨c, hc, rfl⟩ : ∃ c ∈ d.bounds.head?, (m.through T σ).see c = b := by
      simpa [mapBounds] using hb
    have hseen : ((m.through T σ).see c).erasure? =
        some (σ.boundErasure (σ.ownErasure m.decl.typeVariables) c) :=
      erasure?_retaining hσ.givesErasures (hbounds c (List.mem_of_mem_head? hc))
    rw [herasure, TypeVarDecl.erasure, Option.mem_def.mp hb, Option.bind_some]
    exact hseen.trans (congrArg (fun e => some (e.getD .object)) hseen).symm
  · have hsymbol : d.symbol = w.symbol := by simpa using List.find?_some hd
    have hown : (m.through T σ).ownScope w.symbol = some w := by
      rw [ownScope_eq]
      refine Option.map_eq_some_iff.mpr ⟨d, hd, ?_⟩
      rw [hsymbol, ← herasure, ← hsource]
    exact Option.or_eq_some_iff.mpr (Or.inl hown)

/-- In a view every own variable that the method declares carries the erasure of its first bound as
the view shows it, as long as no chain of first bounds runs in a circle. On every declaration the
walks that find these erasures end. -/
theorem own_variables_carry_bound_erasures :
    (∀ (s : Store) (m : Method) (T : Shape) (σ : Substitution),
      AcyclicBounds m.decl.typeVariables → m.decl.IsRegular → Viewing s σ →
      ∀ t ∈ (m.through T σ).shapes, ∀ w ∈ t.references, w.source = .method →
      ∀ v, find? w.symbol (m.through T σ).typeVariables = some v →
        CarriesBound s (m.through T σ) w v) ∧
    ∀ (σ : Substitution) (vars : List TypeVarDecl) (symbol : String),
      Erases σ vars [] symbol (σ.ownErasure vars symbol) :=
  ⟨fun _ _ T _ hacyclic hregular hσ _ ht _ hw hsource _ hv =>
    carriesBound_of_mem T hacyclic hregular hσ ht hw hsource hv, erases_ownErasure⟩

/-- `<A extends E, B extends A[]> B stack(A, Box<? super B>)` of the class `Box<E>`. -/
def stack : MethodDecl where
  internalName := "stack"
  flags := .empty
  typeVariables := [⟨"A", [.variable ⟨"E", .type ⟨14⟩, .object⟩]⟩,
    ⟨"B", [.array (.variable ⟨"A", .method, .object⟩)]⟩]
  returnType := .variable ⟨"B", .method, .array .object⟩
  parameters := [⟨.variable ⟨"A", .method, .object⟩, none, none⟩,
    ⟨.applied ⟨14⟩ [.lower (.variable ⟨"B", .method, .array .object⟩)] none, none, none⟩]

def boxOfStack : ClassDecl where
  name := "p.Box"
  flags := .empty
  typeVariables := [⟨"E", [.object]⟩]
  superclass := some .object
  methods := [stack]

def stackStore : Store := ⟨(Store.seeds ++ [boxOfStack]).toArray⟩

def stringsBox : Shape := .applied ⟨14⟩ [.upper (.plain (.array (.cls .string)))] none

def seenStack : Method :=
  (ofDecl ⟨14⟩ stack).through stringsBox (Binding.ofShape stackStore stringsBox).toSubstitution

theorem acyclicBounds_stack : AcyclicBounds stack.typeVariables := by
  apply not_transGen_of_single (a := "B") (b := "A") _ (by decide)
  intro x y hlink
  have hx : x = "A" ∨ x = "B" := by simpa [stack] using mem_symbols_of_next? hlink
  rcases hx with rfl | rfl
  · cases (hlink : none = some y)
  · exact ⟨rfl, (Option.some.inj (hlink : some "A" = some y)).symm⟩

theorem own_variable_of_stack_carries_bound_erasure :
    AcyclicBounds stack.typeVariables ∧ stack.IsRegular ∧
    Viewing stackStore (Binding.ofShape stackStore stringsBox).toSubstitution ∧
    CarriesBound stackStore seenStack ⟨"B", .method, .array (.array (.cls .string))⟩
      ⟨"B", [.array (.variable ⟨"A", .method, .array (.cls .string)⟩)]⟩ ∧
    Erases .identity [⟨"A", [.variable ⟨"B", .method, .object⟩]⟩,
      ⟨"B", [.array (.variable ⟨"A", .method, .object⟩)]⟩] [] "A" (.array .object) := by
  have hregular : stack.IsRegular := by
    have hall : ∀ t ∈ stack.shapes, t.isRegular = true := by decide
    exact hall
  have hview : Viewing stackStore (Binding.ofShape stackStore stringsBox).toSubstitution :=
    .binding ⟨by decide, by decide⟩
  have hreturn : seenStack.returnType ∈ seenStack.shapes := by decide
  exact ⟨acyclicBounds_stack, hregular, hview,
    own_variables_carry_bound_erasures.1 stackStore (ofDecl ⟨14⟩ stack) stringsBox _
      acyclicBounds_stack hregular hview _ hreturn _ (by decide) rfl _ (by decide),
    own_variables_carry_bound_erasures.2 .identity _ "A"⟩

end Method

end JvmTypes
