import JvmTypes.Proofs.Scope.Search
/-!
# The innermost declaration of a type variable

Where the chain of classes around a class ends, the classes that it sees can be listed from the
inside out, up to a static one or to one in no other. Whoever walks through them and looks into each
before it goes on finds the first that declares a variable. The search of the store and the scope of
the class both walk so, and therefore agree.
-/
namespace JvmTypes.Store

/-- The classes whose variables a class sees, innermost first. A static class sees its own only. -/
inductive Visits (s : Store) : ClassId → List ClassId → Prop
  | static {id : ClassId} (h : (s.get id).flags.isStatic = true) : Visits s id [id]
  | outermost {id : ClassId} (h : (s.get id).declaring = none) : Visits s id [id]
  | outwards {id outer : ClassId} {rest : List ClassId}
      (hmember : (s.get id).flags.isStatic = false) (houter : (s.get id).declaring = some outer)
      (hrest : Visits s outer rest) : Visits s id (id :: rest)

/-- `owner` is the first of the classes that declares the symbol, and declares it so. -/
def Innermost (s : Store) (symbol : String) (cs : List ClassId) (owner : ClassId)
    (v : TypeVarDecl) : Prop :=
  ∃ before after, cs = before ++ owner :: after ∧
    (∀ c ∈ before, TypeVarDecl.find? symbol (s.get c).typeVariables = none) ∧
    TypeVarDecl.find? symbol (s.get owner).typeVariables = some v

variable {s : Store} {symbol : String} {id owner : ClassId} {cs : List ClassId} {v : TypeVarDecl}

theorem Innermost.declared (h : s.Innermost symbol cs owner v) :
    TypeVarDecl.find? symbol (s.get owner).typeVariables = some v := by
  obtain ⟨_, _, _, _, hv⟩ := h
  exact hv

theorem exists_visits (h : ChainEnds s.enclosing id) : ∃ cs, s.Visits id cs := by
  induction h using ChainEnds.induct with
  | step id _ ih =>
    by_cases hstatic : (s.get id).flags.isStatic = true
    · exact ⟨[id], .static hstatic⟩
    · cases houter : (s.get id).declaring with
      | none => exact ⟨[id], .outermost houter⟩
      | some outer =>
        have henclosing : s.enclosing id = some outer := by
          rw [enclosing, ClassDecl.enclosing, if_neg hstatic, houter]
        obtain ⟨rest, hrest⟩ := ih outer henclosing
        exact ⟨id :: rest, .outwards (by simpa using hstatic) houter hrest⟩

theorem innermost_cons : s.Innermost symbol (id :: cs) owner v ↔
    (owner = id ∧ TypeVarDecl.find? symbol (s.get id).typeVariables = some v) ∨
      (TypeVarDecl.find? symbol (s.get id).typeVariables = none ∧
        s.Innermost symbol cs owner v) := by
  constructor
  · rintro ⟨before, after, hcs, hbefore, hv⟩
    cases before with
    | nil =>
      obtain ⟨rfl, rfl⟩ := List.cons.inj hcs
      exact Or.inl ⟨rfl, hv⟩
    | cons c before =>
      obtain ⟨rfl, rfl⟩ := List.cons.inj hcs
      exact Or.inr ⟨hbefore _ (by simp), before, after, rfl,
        fun c hc => hbefore c (by simp [hc]), hv⟩
  · rintro (⟨rfl, hv⟩ | ⟨hnone, before, after, rfl, hbefore, hv⟩)
    · exact ⟨[], cs, rfl, by simp, hv⟩
    · refine ⟨id :: before, after, rfl, ?_, hv⟩
      intro c hc
      rcases List.mem_cons.mp hc with rfl | hc
      · exact hnone
      · exact hbefore c hc

theorem not_innermost_nil : ¬ s.Innermost symbol [] owner v := by
  rintro ⟨before, after, hcs, _⟩
  simp at hcs

section Walks

variable {α : Type} {found : ClassId → TypeVarDecl → α} {a : α}

theorem or_eq_some_iff_innermost {rest : Option α}
    (hrest : rest = some a ↔ ∃ owner v, s.Innermost symbol cs owner v ∧ a = found owner v) :
    ((TypeVarDecl.find? symbol (s.get id).typeVariables).map (found id)).or rest = some a ↔
      ∃ owner v, s.Innermost symbol (id :: cs) owner v ∧ a = found owner v := by
  simp only [innermost_cons]
  cases hown : TypeVarDecl.find? symbol (s.get id).typeVariables with
  | none =>
    rw [Option.map_none, Option.none_or, hrest]
    simp
  | some v =>
    rw [Option.map_some, Option.some_or, Option.some.injEq]
    constructor
    · rintro rfl
      exact ⟨id, v, Or.inl ⟨rfl, rfl⟩, rfl⟩
    · rintro ⟨owner, w, ⟨rfl, hw⟩ | ⟨hnone, _⟩, rfl⟩
      · rw [Option.some.inj hw]
      · cases hnone

/-- A walk that looks into a class before it goes to the class around it finds the innermost
declaration. -/
theorem Visits.walk_eq_some_iff (walk : ClassId → Option α)
    (hwalk : ∀ id, walk id = ((TypeVarDecl.find? symbol (s.get id).typeVariables).map (found id)).or
      ((s.get id).enclosing.bind walk)) (h : s.Visits id cs) :
    walk id = some a ↔ ∃ owner v, s.Innermost symbol cs owner v ∧ a = found owner v := by
  have hlast : (none : Option α) = some a ↔
      ∃ owner v, s.Innermost symbol [] owner v ∧ a = found owner v := by
    simp [not_innermost_nil]
  induction h with
  | @«static» id hstatic =>
    have hnone : (s.get id).enclosing = none := by rw [ClassDecl.enclosing, if_pos hstatic]
    rw [hwalk, hnone]
    exact or_eq_some_iff_innermost hlast
  | @outermost id houter =>
    have hnone : (s.get id).enclosing = none := by rw [ClassDecl.enclosing, houter, ite_self]
    rw [hwalk, hnone]
    exact or_eq_some_iff_innermost hlast
  | @outwards id outer rest hmember houter _ ih =>
    have hsome : (s.get id).enclosing = some outer := by
      rw [ClassDecl.enclosing, if_neg (by simp [hmember]), houter]
    rw [hwalk, hsome, Option.bind_some]
    exact or_eq_some_iff_innermost ih

end Walks

theorem Visits.findVariable?_eq_some_iff (h : s.Visits id cs) {r : ClassId × TypeVarDecl} :
    s.findVariable? id symbol = some r ↔
      ∃ owner v, s.Innermost symbol cs owner v ∧ r = (owner, v) :=
  h.walk_eq_some_iff (s.findVariable? · symbol) (s.findVariable?_eq · symbol)

theorem Visits.ofClass_eq_some_iff (h : s.Visits id cs) {w : TypeVariable} :
    Scope.ofClass s id symbol = some w ↔
      ∃ owner v, s.Innermost symbol cs owner v ∧ w = ⟨symbol, .type owner, v.erasure⟩ := by
  refine h.walk_eq_some_iff (Scope.ofClass s · symbol) ?_
  intro id
  rw [Scope.ofClass_eq_inside, Scope.inside, Scope.orElse, Scope.ofDecls]
  congr 1
  apply Option.map_congr
  intro v hv
  rw [symbol_of_find? hv]

/-- From a class that sees the classes `cs`, the search of the store and the scope of the class both
give the innermost declaration of the symbol: the one the declaration itself, the other a reference
to it with its erasure. -/
structure WalksAgree (s : Store) (symbol : String) (id : ClassId) (cs : List ClassId) : Prop where
  search : ∀ owner v, s.findVariable? id symbol = some (owner, v) ↔
    s.Innermost symbol cs owner v
  scope : ∀ w, Scope.ofClass s id symbol = some w ↔
    ∃ owner v, s.Innermost symbol cs owner v ∧ w = ⟨symbol, .type owner, v.erasure⟩
  same : ∀ owner v, s.findVariable? id symbol = some (owner, v) ↔
    TypeVarDecl.find? symbol (s.get owner).typeVariables = some v ∧
      Scope.ofClass s id symbol = some ⟨symbol, .type owner, v.erasure⟩
  missing : s.findVariable? id symbol = none ↔ Scope.ofClass s id symbol = none

theorem Visits.walksAgree (h : s.Visits id cs) (symbol : String) : s.WalksAgree symbol id cs := by
  have hsearch : ∀ owner v, s.findVariable? id symbol = some (owner, v) ↔
      s.Innermost symbol cs owner v := by
    intro owner v
    simp [h.findVariable?_eq_some_iff]
  have hscope : ∀ w, Scope.ofClass s id symbol = some w ↔
      ∃ owner v, s.Innermost symbol cs owner v ∧ w = ⟨symbol, .type owner, v.erasure⟩ :=
    fun w => h.ofClass_eq_some_iff
  refine ⟨hsearch, hscope, ?_, ?_⟩
  · intro owner v
    rw [hsearch, hscope]
    constructor
    · intro hin
      exact ⟨hin.declared, owner, v, hin, rfl⟩
    · rintro ⟨hv, owner', v', hin, heq⟩
      obtain ⟨_, howner, _⟩ := TypeVariable.mk.inj heq
      obtain rfl := VariableSource.type.inj howner
      obtain rfl := Option.some.inj (hv.symm.trans hin.declared)
      exact hin
  · simp only [Option.eq_none_iff_forall_ne_some]
    constructor
    · intro hnone w hw
      obtain ⟨owner, v, hin, _⟩ := (hscope w).mp hw
      exact hnone (owner, v) ((hsearch owner v).mpr hin)
    · rintro hnone ⟨owner, v⟩ hr
      exact hnone _ ((hscope _).mpr ⟨owner, v, (hsearch owner v).mp hr, rfl⟩)

/-- Where the chain of classes around a class ends, the two walks outwards from it agree for every
symbol. -/
theorem scope_walks_agree (h : ChainEnds s.enclosing id) :
    ∃ cs, s.Visits id cs ∧ ∀ symbol, s.WalksAgree symbol id cs := by
  obtain ⟨cs, hcs⟩ := exists_visits h
  exact ⟨cs, hcs, hcs.walksAgree⟩

/-- `Outer<T, U>`, the static class `Outer.Nested<U>` in it, and the inner class `Nested.Inner`. -/
def nestedClasses : List ClassDecl :=
  [ { name := "p.Outer", flags := .empty, typeVariables := [⟨"T", []⟩, ⟨"U", []⟩],
      superclass := some .object },
    { name := "p.Outer$Nested", flags := .ofBits [AccessFlags.staticBit],
      typeVariables := [⟨"U", [.ofClass .string]⟩], superclass := some .object,
      declaring := some ⟨14⟩ },
    { name := "p.Outer$Nested$Inner", flags := .empty, superclass := some .object,
      declaring := some ⟨15⟩ } ]

def nestedStore : Store := ⟨(seeds ++ nestedClasses).toArray⟩

/-- The inner class sees the variable of the static class around it, which hides one of the
outermost class, and no other variable of that. -/
theorem scope_walks_of_inner_agree : ChainEnds nestedStore.enclosing ⟨16⟩ ∧
    (∃ cs, nestedStore.Visits ⟨16⟩ cs ∧ ∀ symbol, nestedStore.WalksAgree symbol ⟨16⟩ cs) ∧
    Scope.ofClass nestedStore ⟨16⟩ "U" = some ⟨"U", .type ⟨15⟩, .cls .string⟩ ∧
    nestedStore.findVariable? ⟨16⟩ "T" = none := by
  have hends : ChainEnds nestedStore.enclosing ⟨16⟩ := ⟨2, by decide +kernel⟩
  exact ⟨hends, scope_walks_agree hends, by decide +kernel, by decide +kernel⟩

end JvmTypes.Store
