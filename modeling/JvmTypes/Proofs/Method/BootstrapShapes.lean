import JvmTypes.Method.Bootstrap
import JvmTypes.Proofs.Loader.Calls
/-!
# Shapes of bootstrap methods

The parameter lists of bootstrap methods as a relation, and the methods that have a call site to
return. The recognizer takes exactly these, but that it lets a type initializer pass for a method of
the second kind, so that one with the parameters of a bootstrap method is taken for one.
-/
namespace JvmTypes

namespace Bootstrap

def objects : Erased := .array .object

def IsConstant (p : Erased) : Prop := p = .object ∨ p.isConstantPool = true

instance (p : Erased) : Decidable (IsConstant p) :=
  inferInstanceAs (Decidable (p = .object ∨ p.isConstantPool = true))

/-- The three parameters that lead: a lookup, a name and a method type can be stored in them. -/
structure Leads (s : Store) (lookup name type : Erased) : Prop where
  lookup : lookup.isAssignable s (.cls .lookup) = true
  name : name = .object ∨ name = .cls .string
  type : type.isAssignable s (.cls .methodType) = true

/-- The parameter lists of bootstrap methods. From any place on all arguments may go into an array
of objects. -/
inductive Takes (s : Store) : List Erased → Prop
  | objects : Takes s [objects]
  | lookup {lookup : Erased} (hlookup : lookup.isAssignable s (.cls .lookup) = true) :
      Takes s [lookup, objects]
  | name {lookup name : Erased} (hlookup : lookup.isAssignable s (.cls .lookup) = true)
      (hname : name = .object ∨ name = .cls .string) : Takes s [lookup, name, objects]
  | constants {lookup name type : Erased} {constants : List Erased}
      (hleads : Leads s lookup name type) (h : ∀ p ∈ constants, IsConstant p) :
      Takes s (lookup :: name :: type :: constants)
  | constantsAndObjects {lookup name type : Erased} {constants : List Erased}
      (hleads : Leads s lookup name type) (h : ∀ p ∈ constants, IsConstant p) :
      Takes s (lookup :: name :: type :: (constants ++ [Bootstrap.objects]))

variable {s : Store} {p lookup name type : Erased} {ps : List Erased}

theorem isObjectArray_iff : p.isObjectArray = true ↔ p = objects := by
  rw [Erased.isObjectArray, decide_eq_true_iff, objects]

theorem isConstant_iff : (p = .object || p.isConstantPool) = true ↔ IsConstant p := by
  rw [Bool.or_eq_true, decide_eq_true_iff, IsConstant]

theorem not_isConstant_objects : ¬ IsConstant objects := by decide

theorem endsInObjects_cons :
    (∃ front, p :: ps = front ++ [objects] ∧ ∀ q ∈ front, IsConstant q) ↔
      (p = objects ∧ ps = []) ∨
        (IsConstant p ∧ ∃ front, ps = front ++ [objects] ∧ ∀ q ∈ front, IsConstant q) := by
  constructor
  · rintro ⟨front, hsplit, hfront⟩
    cases front with
    | nil => exact Or.inl (List.cons.inj hsplit)
    | cons q front =>
      obtain ⟨rfl, hrest⟩ := List.cons.inj hsplit
      obtain ⟨hp, hfront⟩ := List.forall_mem_cons.mp hfront
      exact Or.inr ⟨hp, front, hrest, hfront⟩
  · rintro (⟨rfl, rfl⟩ | ⟨hp, front, rfl, hfront⟩)
    · exact ⟨[], rfl, nofun⟩
    · exact ⟨p :: front, rfl, List.forall_mem_cons.mpr ⟨hp, hfront⟩⟩

theorem takesConstants_iff : takesConstants ps = true ↔
    (∀ p ∈ ps, IsConstant p) ∨ ∃ front, ps = front ++ [objects] ∧ ∀ p ∈ front, IsConstant p := by
  induction ps with
  | nil => simp [takesConstants]
  | cons p ps ih =>
    rw [takesConstants, endsInObjects_cons, List.forall_mem_cons]
    by_cases hp : IsConstant p
    · have hne : p ≠ objects := fun h => not_isConstant_objects (h ▸ hp)
      rw [if_pos (isConstant_iff.mpr hp), ih]
      simp [hp, hne]
    · rw [if_neg (mt isConstant_iff.mp hp), Bool.and_eq_true, isObjectArray_iff, List.isEmpty_iff]
      simp [hp]

theorem takesName_iff : takesName p = true ↔ p = .object ∨ p = .cls .string := by
  rw [takesName, Bool.or_eq_true, decide_eq_true_iff, decide_eq_true_iff]

theorem takesParameters_cons (s : Store) (a b c : Erased) (rest : List Erased) :
    takesParameters s (a :: b :: c :: rest) = (takesLookup s a && takesName b &&
      (c.isObjectArray && rest.isEmpty || takesMethodType s c && takesConstants rest)) := by
  cases rest with
  | nil => simp [takesParameters, takesConstants]
  | cons p rest => simp [takesParameters, Bool.and_assoc]

/-- The recognizer decides the relation. -/
theorem takesParameters_iff : takesParameters s ps = true ↔ Takes s ps := by
  constructor
  · intro h
    match ps, h with
    | [a], h =>
      obtain rfl := isObjectArray_iff.mp h
      exact .objects
    | [a, b], h =>
      obtain ⟨hlookup, hlast⟩ := Bool.and_eq_true_iff.mp h
      obtain rfl := isObjectArray_iff.mp hlast
      exact .lookup hlookup
    | a :: b :: c :: rest, h =>
      simp only [takesParameters_cons, Bool.and_eq_true, Bool.or_eq_true, takesName_iff,
        isObjectArray_iff, List.isEmpty_iff] at h
      obtain ⟨⟨hlookup, hname⟩, ⟨rfl, rfl⟩ | ⟨htype, hrest⟩⟩ := h
      · exact .name hlookup hname
      · rcases takesConstants_iff.mp hrest with hall | ⟨front, rfl, hall⟩
        · exact .constants ⟨hlookup, hname, htype⟩ hall
        · exact .constantsAndObjects ⟨hlookup, hname, htype⟩ hall
  · intro h
    cases h with
    | objects => rfl
    | lookup hlookup => exact Bool.and_eq_true_iff.mpr ⟨hlookup, rfl⟩
    | name hlookup hname =>
      simp only [takesParameters_cons, Bool.and_eq_true, Bool.or_eq_true, takesName_iff]
      exact ⟨⟨hlookup, hname⟩, Or.inl ⟨rfl, rfl⟩⟩
    | constants hleads h =>
      simp only [takesParameters_cons, Bool.and_eq_true, Bool.or_eq_true, takesName_iff]
      exact ⟨⟨hleads.lookup, hleads.name⟩, Or.inr ⟨hleads.type, takesConstants_iff.mpr (Or.inl h)⟩⟩
    | constantsAndObjects hleads h =>
      simp only [takesParameters_cons, Bool.and_eq_true, Bool.or_eq_true, takesName_iff]
      exact ⟨⟨hleads.lookup, hleads.name⟩,
        Or.inr ⟨hleads.type, takesConstants_iff.mpr (Or.inr ⟨_, rfl, h⟩)⟩⟩

end Bootstrap

namespace Method

/-- Running the method gives a call site, or a value that may be one: a static method that returns
it, or a constructor of a class of call sites. -/
def MakesCallSite (s : Store) (m : Method) (returns : Erased) : Prop :=
  (m.isOrdinary = true ∧ m.flags.isStatic = true ∧
    ((Erased.cls .callSite).isAssignable s returns = true ∨
      returns.isAssignable s (.cls .callSite) = true)) ∨
  (m.isConstructor = true ∧ (Erased.cls .callSite).isAssignable s m.ownerType = true)

instance (s : Store) (m : Method) (returns : Erased) : Decidable (MakesCallSite s m returns) :=
  inferInstanceAs (Decidable (_ ∨ _))

variable {s : Store} {m : Method} {returns : Erased} {ps : List Erased}

theorem kind_cases (m : Method) :
    (m.isOrdinary = true ∧ m.isConstructor = false ∧ m.isTypeInitializer = false) ∨
    (m.isOrdinary = false ∧ m.isConstructor = true ∧ m.isTypeInitializer = false) ∨
    (m.isOrdinary = false ∧ m.isConstructor = false ∧ m.isTypeInitializer = true) := by
  have hnames : MethodDecl.constructorName ≠ MethodDecl.typeInitializerName := by decide
  rw [isOrdinary, isConstructor, isTypeInitializer]
  by_cases hc : m.internalName = MethodDecl.constructorName
  · simp [hc, hnames]
  · by_cases ht : m.internalName = MethodDecl.typeInitializerName
    · simp [ht, hnames.symm]
    · simp [hc, ht]

theorem not_makesCallSite_of_isTypeInitializer (h : m.isTypeInitializer = true) :
    ¬ MakesCallSite s m returns := by
  rcases m.kind_cases with ⟨_, _, ht⟩ | ⟨_, _, ht⟩ | ⟨ho, hc, _⟩
  · simp [h] at ht
  · simp [h] at ht
  · simp [MakesCallSite, ho, hc]

theorem linksCallSite_iff : m.linksCallSite s returns = true ↔
    MakesCallSite s m returns ∨ m.isTypeInitializer = true := by
  rcases m.kind_cases with ⟨ho, hc, ht⟩ | ⟨ho, hc, ht⟩ | ⟨ho, hc, ht⟩
  · simp [linksCallSite, MakesCallSite, ho, hc, ht]
  · simp [linksCallSite, MakesCallSite, ho, hc, ht]
  · simp [linksCallSite, ho, hc, ht]

theorem isBootstrap_eq (hr : m.returnType.erasure = .ok returns)
    (hps : Shape.erasures m.parameterTypes = .ok ps) :
    m.isBootstrap s = .ok (m.linksCallSite s returns && Bootstrap.takesParameters s ps) := by
  rw [isBootstrap, hr, hps]
  cases h : m.linksCallSite s returns with
  | true => simp [h, bind, Except.bind]
  | false => simp [h, bind, Except.bind]

/-- What is taken for a bootstrap method: a method that makes a call site or a type initializer,
with the parameters of a bootstrap method. The answer is right for all but type initializers with
such parameters. -/
theorem isBootstrap_iff_shape (hr : m.returnType.erasure = .ok returns)
    (hps : Shape.erasures m.parameterTypes = .ok ps) :
    ∃ b, m.isBootstrap s = .ok b ∧
      (b = true ↔
        (MakesCallSite s m returns ∨ m.isTypeInitializer = true) ∧ Bootstrap.Takes s ps) ∧
      ((b = true ↔ MakesCallSite s m returns ∧ Bootstrap.Takes s ps) ↔
        ¬ (m.isTypeInitializer = true ∧ Bootstrap.Takes s ps)) := by
  have hexact : (m.linksCallSite s returns && Bootstrap.takesParameters s ps) = true ↔
      (MakesCallSite s m returns ∨ m.isTypeInitializer = true) ∧ Bootstrap.Takes s ps := by
    rw [Bool.and_eq_true, linksCallSite_iff, Bootstrap.takesParameters_iff]
  refine ⟨_, isBootstrap_eq hr hps, hexact, ?_⟩
  rw [hexact]
  by_cases ht : m.isTypeInitializer = true
  · have hnot : ¬ MakesCallSite s m returns := not_makesCallSite_of_isTypeInitializer ht
    simp [ht, hnot]
  · simp [ht]

def linkWithConstants : MethodDecl where
  internalName := "link"
  flags := .ofBits [AccessFlags.staticBit]
  returnType := .ofClass .callSite
  parameters := [⟨.ofClass .lookup, none, none⟩, ⟨.ofClass .string, none, none⟩,
    ⟨.ofClass .methodType, none, none⟩, ⟨.plain (.primitive .int), none, none⟩,
    ⟨.plain (.array .object), none, none⟩]

theorem link_is_bootstrap :
    (ofDecl .object linkWithConstants).returnType.erasure = .ok (.cls .callSite) ∧
    Shape.erasures (ofDecl .object linkWithConstants).parameterTypes = .ok
      [.cls .lookup, .cls .string, .cls .methodType, .primitive .int, .array .object] ∧
    MakesCallSite .initial (ofDecl .object linkWithConstants) (.cls .callSite) ∧
    (ofDecl .object linkWithConstants).isBootstrap .initial = .ok true := by
  have hr : (ofDecl .object linkWithConstants).returnType.erasure = .ok (.cls .callSite) := rfl
  have hps : Shape.erasures (ofDecl .object linkWithConstants).parameterTypes = .ok
      [.cls .lookup, .cls .string, .cls .methodType, .primitive .int, .array .object] := rfl
  have hmakes : MakesCallSite .initial (ofDecl .object linkWithConstants) (.cls .callSite) := by
    decide
  have hleads : Bootstrap.Leads .initial (.cls .lookup) (.cls .string) (.cls .methodType) :=
    ⟨by decide, Or.inr rfl, by decide⟩
  have hconstant : ∀ p ∈ [Erased.primitive .int], Bootstrap.IsConstant p := by decide
  obtain ⟨b, hb, hexact, _⟩ := isBootstrap_iff_shape (s := .initial) hr hps
  obtain rfl : b = true := hexact.mpr ⟨Or.inl hmakes, .constantsAndObjects hleads hconstant⟩
  exact ⟨hr, hps, hmakes, hb⟩

/-- The initializer that every class has takes nothing. -/
example (s : Store) (owner : ClassId) : (typeInitializer owner).isBootstrap s = .ok false := rfl

def initializerStub : MethodStub where
  name := "<clinit>"
  descriptor := "([Ljava/lang/Object;)V"
  signature := none
  flags := .ofBits [AccessFlags.staticBit]
  exceptions := []
  annotations := []
  defaultValue := none
  parameters := []

def initializerState : Loader.State :=
  (Loader.load (Loader.ofStubs [{ Loader.bareStub "p.A" with methods := [initializerStub] }]) {}
    "p.A" { store := .initial }).2

/-- A class may come with a type initializer that takes an array of objects. It returns nothing, and
still it is taken for a bootstrap method. -/
theorem initializer_with_objects_is_bootstrap :
    Loader.Reachable initializerState ∧
    ∃ m ∈ declaredBy initializerState.store ⟨14⟩, m.isTypeInitializer = true ∧
      m.returnType.erasure = .ok .void ∧
      Shape.erasures m.parameterTypes = .ok [Bootstrap.objects] ∧
      ¬ MakesCallSite initializerState.store m .void ∧
      m.isBootstrap initializerState.store = .ok true := by
  have hreachable : Loader.Reachable initializerState :=
    .load _ {} "p.A" (Loader.faithful_ofStubs _) .start
  exact ⟨hreachable, by decide +kernel⟩

end Method

end JvmTypes
