import JvmTypes.Members
import JvmTypes.Method.Bootstrap
import JvmTypes.Method.DefaultValue
import JvmTypes.Method.Text
import JvmTypes.Proofs.Method.Views
/-!
# Members of regular types

A wildcard that an argument brings in stays an argument: wherever else its variable stands the view
shows a bound of it. So all that is seen through a regular type is regular, over any number of super
types, and has an erasure.
-/
namespace JvmTypes

structure Substitution.KeepsRegular (σ : Substitution) : Prop where
  var : ∀ v, (σ.var v).isRegular = true
  argument : ∀ v, (σ.argument v).isRegularArgument = true
  erased : ∀ e, (σ.erased e).isRegular = true

namespace Shape

variable {σ : Substitution}

theorem isRegular_subst_and (h : σ.KeepsRegular) (t : Shape) :
    (t.isRegular = true → (t.subst σ).isRegular = true) ∧
      (t.isRegularArgument = true → (σ.onArgument t).isRegularArgument = true) := by
  induction t with
  | plain e =>
    have hplain : ((Shape.plain e).subst σ).isRegular = true := h.erased e
    exact ⟨fun _ => hplain, fun _ => isRegular.argument hplain⟩
  | array c ih =>
    have harray : c.isRegular = true → ((Shape.array c).subst σ).isRegular = true := by
      intro hc
      rw [subst_array, isRegular_arrayOf]
      exact ih.1 hc
    exact ⟨harray, fun hc => isRegular.argument (harray hc)⟩
  | applied raw as o has ho =>
    have happlied : (applied raw as o).isRegular = true →
        ((applied raw as o).subst σ).isRegular = true := by
      intro hregular
      obtain ⟨hargs, howner⟩ := isRegular_applied.mp hregular
      rw [subst_applied, isRegular_applied]
      refine ⟨?_, ?_⟩
      · intro a' ha'
        obtain ⟨a, ha, rfl⟩ := List.mem_map.mp ha'
        exact (has a ha).2 (hargs a ha)
      · intro p' hp'
        obtain ⟨p, hp, rfl⟩ := Option.mem_map.mp hp'
        exact (ho p hp).1 (howner p hp)
    exact ⟨happlied, fun hregular => isRegular.argument (happlied hregular)⟩
  | upper b ih =>
    refine ⟨fun hupper => by simp [isRegular] at hupper, ?_⟩
    intro hb
    exact ih.1 hb
  | lower b ih =>
    refine ⟨fun hlower => by simp [isRegular] at hlower, ?_⟩
    intro hb
    exact ih.1 hb
  | reference v => exact ⟨fun _ => h.var v, fun _ => h.argument v⟩

theorem isRegular_subst (h : σ.KeepsRegular) {t : Shape} (ht : t.isRegular = true) :
    (t.subst σ).isRegular = true :=
  (isRegular_subst_and h t).1 ht

end Shape

theorem Binding.keepsRegular {s : Store} {P : Shape} (hP : P.isRegular = true) :
    (Binding.ofShape s P).toSubstitution.KeepsRegular := by
  refine ⟨?_, ?_, fun _ => rfl⟩
  · intro v
    cases h : (ofShape s P).lookup? v with
    | none =>
      rw [var_eq_self _ h]
      rfl
    | some a =>
      rw [var_eq _ h]
      exact isRegular_collapse (argument_of_lookup? hP h).1
  · intro v
    cases h : (ofShape s P).lookup? v with
    | none =>
      rw [argument_eq_self _ h]
      rfl
    | some a =>
      rw [argument_eq _ h]
      exact (argument_of_lookup? hP h).1

theorem Substitution.KeepsRegular.retaining {σ : Substitution} (h : σ.KeepsRegular)
    (vars : List TypeVarDecl) : (σ.retaining vars).KeepsRegular := by
  refine ⟨?_, ?_, h.erased⟩
  · intro v
    by_cases hv : v.source = .method
    · simp [Substitution.retaining, hv, Shape.isRegular]
    · simpa [Substitution.retaining, hv] using h.var v
  · intro v
    by_cases hv : v.source = .method
    · simp [Substitution.retaining, hv, Shape.isRegularArgument, Shape.isRegular]
    · simpa [Substitution.retaining, hv] using h.argument v

def MethodDecl.IsRegular (m : MethodDecl) : Prop := ∀ t ∈ m.shapes, t.isRegular = true

structure ClassDecl.IsRegular (c : ClassDecl) : Prop where
  shapes : ∀ t ∈ c.shapes, t.isRegular = true
  methods : ∀ m ∈ c.methods, m.IsRegular

theorem ClassDecl.isRegular_placeholder (name : String) : (placeholder name).IsRegular := by
  refine ⟨?_, by simp [placeholder]⟩
  intro t ht
  obtain rfl : t = .object := by simpa [ClassDecl.shapes, placeholder] using ht
  rfl

def Store.IsRegular (s : Store) : Prop := ∀ id, (s.get id).IsRegular

theorem Store.isRegular_iff {s : Store} :
    s.IsRegular ↔ ∀ c ∈ s.classes.toList, (∀ t ∈ c.shapes, t.isRegular = true) ∧
      ∀ m ∈ c.methods, ∀ t ∈ m.shapes, t.isRegular = true := by
  constructor
  · intro h c hc
    obtain ⟨i, hi, rfl⟩ := List.getElem_of_mem hc
    have hget := h ⟨i⟩
    rw [Store.get, Array.getElem?_eq_getElem (by simpa using hi)] at hget
    exact ⟨hget.shapes, hget.methods⟩
  · intro h id
    by_cases hid : id.index < s.classes.size
    · rw [Store.get, Array.getElem?_eq_getElem hid]
      obtain ⟨hshapes, hmethods⟩ := h _ (Array.getElem_mem_toList hid)
      exact ⟨hshapes, hmethods⟩
    · rw [Store.get_of_size_le (not_lt.mp hid)]
      exact ClassDecl.isRegular_placeholder ""

instance (s : Store) : Decidable s.IsRegular := decidable_of_iff' _ Store.isRegular_iff

namespace Shape

/-- The types that are reached from `P` by super types, interfaces and hierarchies. -/
inductive Reached (s : Store) (P : Shape) : Shape → Prop
  | start : Reached s P P
  | supertype {t u : Shape} (h : Reached s P t) (hu : t.supertype s = .ok (some u)) : Reached s P u
  | interface {t u : Shape} {us : List Shape} (h : Reached s P t) (hus : t.interfaces s = .ok us)
      (hu : u ∈ us) : Reached s P u
  | hierarchy {t u : Shape} {n : Nat} (h : Reached s P t) (hu : u ∈ t.hierarchy s n) :
      Reached s P u

section Cases

variable {s : Store} {t u : Shape}

theorem binding_of_outline {q : Query} {id : ClassId} {b : Binding}
    (h : t.outline s q = .ok (.ofClass id (some b))) : b = .ofShape s t := by
  cases t with
  | plain e => cases e <;> simp [outline, outline?] at h
  | applied raw as o =>
    have hbinding : raw = id ∧ Binding.ofShape s (.applied raw as o) = b := by
      simpa [outline, outline?] using h
    exact hbinding.2.symm
  | array c | upper b | lower b | «variable» v => simp [outline, outline?] at h

theorem exists_of_bind_eq_ok {m : Except ε α} {f : α → Except ε β} {b : β}
    (h : (m >>= f) = .ok b) : ∃ a, m = .ok a ∧ f a = .ok b := by
  cases m with
  | error e => cases h
  | ok a => exact ⟨a, rfl, h⟩

theorem supertype_cases (h : t.supertype s = .ok (some u)) :
    (∃ id binding d, t.outline s .supertype = .ok (.ofClass id binding) ∧
      (s.get id).superclass = some d ∧ u = d.seenThrough binding) ∨ u = .object := by
  obtain ⟨outline, ho, h⟩ := exists_of_bind_eq_ok h
  cases outline with
  | ofClass id binding =>
    obtain ⟨d, hd, rfl⟩ := Option.map_eq_some_iff.mp (Except.ok.inj h)
    exact .inl ⟨id, binding, d, ho, hd, rfl⟩
  | array => exact .inr (Option.some.inj (Except.ok.inj h)).symm
  | empty => cases h

theorem interface_cases {us : List Shape} (h : t.interfaces s = .ok us) (hu : u ∈ us) :
    (∃ id binding d, t.outline s .interfaces = .ok (.ofClass id binding) ∧
      d ∈ (s.get id).interfaces ∧ u = d.seenThrough binding) ∨
      u = .ofClass .cloneable ∨ u = .ofClass .serializable := by
  obtain ⟨outline, ho, h⟩ := exists_of_bind_eq_ok h
  cases outline with
  | ofClass id binding =>
    obtain rfl := Except.ok.inj h
    obtain ⟨d, hd, rfl⟩ := List.mem_map.mp hu
    exact .inl ⟨id, binding, d, ho, hd, rfl⟩
  | array =>
    obtain rfl := Except.ok.inj h
    exact .inr (List.mem_pair.mp hu)
  | empty =>
    obtain rfl := Except.ok.inj h
    cases hu

theorem field_cases {fs : List Field} (h : t.fields s = .ok fs) {f : Field} (hf : f ∈ fs) :
    ∃ id binding d, t.outline s .fields = .ok (.ofClass id binding) ∧ d ∈ (s.get id).fields ∧
      f.type = d.type.seenThrough binding := by
  obtain ⟨outline, ho, h⟩ := exists_of_bind_eq_ok h
  cases outline with
  | ofClass id binding =>
    cases binding with
    | none =>
      obtain rfl := Except.ok.inj h
      obtain ⟨d, hd, rfl⟩ := List.mem_map.mp hf
      exact ⟨id, none, d, ho, hd, rfl⟩
    | some b =>
      obtain rfl := Except.ok.inj h
      obtain ⟨f', hf', rfl⟩ := List.mem_map.mp hf
      obtain ⟨d, hd, rfl⟩ := List.mem_map.mp hf'
      exact ⟨id, some b, d, ho, hd, rfl⟩
  | array | empty =>
    obtain rfl := Except.ok.inj h
    cases hf

theorem method_cases {ms : List Method} (h : t.methods s = .ok ms) {m : Method} (hm : m ∈ ms) :
    ∃ id d, d ∈ (s.get id).methods ∧ (m = .ofDecl id d ∨
      m = (Method.ofDecl id d).through t (Binding.ofShape s t).toSubstitution) := by
  obtain ⟨outline, ho, h⟩ := exists_of_bind_eq_ok h
  cases outline with
  | ofClass id binding =>
    cases binding with
    | none =>
      obtain rfl := Except.ok.inj h
      obtain ⟨d, hd, rfl⟩ := List.mem_map.mp hm
      exact ⟨id, d, hd, .inl rfl⟩
    | some b =>
      obtain rfl := binding_of_outline ho
      obtain rfl := Except.ok.inj h
      obtain ⟨m', hm', rfl⟩ := List.mem_map.mp hm
      obtain ⟨d, hd, rfl⟩ := List.mem_map.mp hm'
      exact ⟨id, d, hd, .inr rfl⟩
  | array | empty =>
    obtain rfl := Except.ok.inj h
    cases hm

end Cases

section Store

variable {s : Store} (hs : s.IsRegular) {t u : Shape} (ht : t.isRegular = true)
include hs ht

omit hs in
theorem isRegular_seenThrough {q : Query} {id : ClassId} {binding : Option Binding}
    (ho : t.outline s q = .ok (.ofClass id binding)) (hu : u.isRegular = true) :
    (u.seenThrough binding).isRegular = true := by
  cases binding with
  | none => exact hu
  | some b =>
    obtain rfl := binding_of_outline ho
    exact isRegular_subst (Binding.keepsRegular ht) hu

theorem isRegular_supertype (hu : t.supertype s = .ok (some u)) : u.isRegular = true := by
  rcases supertype_cases hu with ⟨id, binding, d, ho, hd, rfl⟩ | rfl
  · have hmem : d ∈ (s.get id).shapes := by simp [ClassDecl.shapes, hd]
    exact isRegular_seenThrough ht ho ((hs id).shapes d hmem)
  · rfl

theorem isRegular_interfaces {us : List Shape} (hus : t.interfaces s = .ok us) (hu : u ∈ us) :
    u.isRegular = true := by
  rcases interface_cases hus hu with ⟨id, binding, d, ho, hd, rfl⟩ | rfl | rfl
  · have hmem : d ∈ (s.get id).shapes := by simp [ClassDecl.shapes, hd]
    exact isRegular_seenThrough ht ho ((hs id).shapes d hmem)
  · rfl
  · rfl

theorem isRegular_hierarchy {n : Nat} (hu : u ∈ t.hierarchy s n) : u.isRegular = true := by
  induction n generalizing t with
  | zero => simp [hierarchy] at hu
  | succ n ih =>
    rw [hierarchy] at hu
    rcases List.mem_cons.mp hu with rfl | hu
    · exact ht
    · cases hparent : t.parent? s with
      | none => simp [hparent] at hu
      | some p =>
        have hp : t.supertype s = .ok (some p) := by
          unfold parent? at hparent
          cases hsuper : t.supertype s with
          | error e => simp [hsuper, Except.toOption] at hparent
          | ok o => simpa [hsuper, Except.toOption] using hparent
        rw [hparent] at hu
        exact ih (isRegular_supertype hs ht hp) hu

theorem Reached.isRegular (h : Reached s t u) : u.isRegular = true := by
  induction h with
  | start => exact ht
  | supertype _ hu ih => exact isRegular_supertype hs ih hu
  | interface _ hus hu ih => exact isRegular_interfaces hs ih hus hu
  | hierarchy _ hu ih => exact isRegular_hierarchy hs ih hu

theorem isRegular_fields {fs : List Field} (hfs : t.fields s = .ok fs) {f : Field} (hf : f ∈ fs) :
    f.type.isRegular = true := by
  obtain ⟨id, binding, d, ho, hd, htype⟩ := field_cases hfs hf
  have hmem : d.type ∈ (s.get id).shapes :=
    List.mem_append_right _ (List.mem_map.mpr ⟨d, hd, rfl⟩)
  rw [htype]
  exact isRegular_seenThrough ht ho ((hs id).shapes d.type hmem)

end Store

end Shape

namespace Method

structure IsRegular (m : Method) : Prop where
  declared : m.decl.IsRegular
  seen : ∀ t ∈ m.shapes, t.isRegular = true

theorem isRegular_ofDecl {owner : ClassId} {d : MethodDecl} (hd : d.IsRegular) :
    (ofDecl owner d).IsRegular := by
  refine ⟨hd, ?_⟩
  rw [shapes_ofDecl]
  exact hd

theorem isRegular_through {m : Method} (hm : m.decl.IsRegular) {σ : Substitution}
    (h : σ.KeepsRegular) (declaringType : Shape) : (m.through declaringType σ).IsRegular := by
  refine ⟨hm, ?_⟩
  intro t ht
  obtain ⟨u, hu, rfl⟩ := List.mem_map.mp ht
  exact Shape.isRegular_subst (h.retaining m.decl.typeVariables) (hm u hu)

/-- The questions about a method that need erasures all have an answer. -/
structure Answers (s : Store) (m : Method) : Prop where
  descriptor : ∃ text, m.descriptor s = .ok text
  typeToken : ∃ token, m.typeToken = .ok token
  slots : ∃ n, m.slots = .ok n
  isBootstrap : ∃ b, m.isBootstrap s = .ok b
  isBootstrapWith : ∀ arguments, m.isBootstrapWith s arguments ≠ .error .wildcardErasure
  isProperty : ∃ b, m.isProperty s = .ok b
  acceptsDefault : ∀ value, ∃ b, m.acceptsDefault s value = .ok b
  token : ∀ erase, ∃ token, m.toTokenWith erase = .ok token

namespace IsRegular

variable {m n : Method} (h : m.IsRegular)
include h

theorem erased : ∀ t ∈ m.returnType :: m.parameterTypes, ∃ e, t.erasure? = some e := by
  intro t ht
  refine Shape.erasure?_of_isRegular (h.seen t ?_)
  rw [shapes_eq]
  refine List.mem_append_right _ ?_
  rcases List.mem_cons.mp ht with rfl | ht
  · exact List.mem_cons_self ..
  · exact List.mem_cons_of_mem _ (List.mem_append_left _ ht)

theorem exists_returnType : ∃ e, m.returnType.erasure = .ok e := by
  obtain ⟨e, he⟩ := h.erased m.returnType (by simp)
  exact ⟨e, Shape.erasure_eq he⟩

theorem exists_parameterTypes : ∃ es, Shape.erasures m.parameterTypes = .ok es :=
  Shape.erasures_total fun t ht => h.erased t (List.mem_cons_of_mem _ ht)

theorem exists_typeToken : ∃ token, m.typeToken = .ok token := typeToken_total h.erased

theorem exists_slots : ∃ k, m.slots = .ok k := by
  obtain ⟨es, hes⟩ := h.exists_parameterTypes
  exact ⟨_, by rw [slots, hes]; rfl⟩

theorem exists_isBootstrap (s : Store) : ∃ b, m.isBootstrap s = .ok b := by
  obtain ⟨e, he⟩ := h.exists_returnType
  obtain ⟨es, hes⟩ := h.exists_parameterTypes
  rw [isBootstrap, he, hes]
  change ∃ b, (if m.linksCallSite s e then Except.ok (Bootstrap.takesParameters s es)
    else Except.ok false) = Except.ok b
  split
  · exact ⟨_, rfl⟩
  · exact ⟨_, rfl⟩

omit h in
theorem check_ne_wildcardErasure (arguments : List BootstrapArgument) :
    arguments.forM BootstrapArgument.check ≠ .error .wildcardErasure := by
  induction arguments with
  | nil => exact nofun
  | cons a as ih =>
    change (a.check >>= fun _ => as.forM BootstrapArgument.check) ≠ _
    intro h
    cases hcheck : a.check with
    | ok u =>
      rw [hcheck] at h
      exact ih h
    | error e =>
      rw [hcheck] at h
      obtain rfl : e = .wildcardErasure := Except.error.inj h
      cases a with
      | constant c => cases c <;> simp [BootstrapArgument.check] at hcheck
      | type _ | methodHandle _ _ _ | methodType _ => simp [BootstrapArgument.check] at hcheck

theorem isBootstrapWith_ne (s : Store) (arguments : List BootstrapArgument) :
    m.isBootstrapWith s arguments ≠ .error .wildcardErasure := by
  obtain ⟨b, hb⟩ := h.exists_isBootstrap s
  obtain ⟨es, hes⟩ := h.exists_parameterTypes
  intro hwith
  rw [isBootstrapWith, hb, hes] at hwith
  cases b with
  | false => cases hwith
  | true =>
    cases hcheck : arguments.forM BootstrapArgument.check with
    | error e =>
      simp only [hcheck] at hwith
      obtain rfl : e = .wildcardErasure := Except.error.inj hwith
      exact check_ne_wildcardErasure arguments hcheck
    | ok u =>
      simp only [hcheck] at hwith
      change (if es.length < 4 then Except.ok _ else Except.ok _) = Except.error _ at hwith
      split at hwith <;> cases hwith

theorem exists_isProperty (s : Store) : ∃ b, m.isProperty s = .ok b := by
  obtain ⟨e, he⟩ := h.exists_returnType
  rw [isProperty, he]
  split
  · exact ⟨_, rfl⟩
  · exact ⟨_, rfl⟩

theorem exists_acceptsDefault (s : Store) (value : ElementValue) :
    ∃ b, m.acceptsDefault s value = .ok b := by
  obtain ⟨b, hb⟩ := h.exists_isProperty s
  obtain ⟨e, he⟩ := h.exists_returnType
  rw [acceptsDefault, hb, he]
  cases b with
  | true => exact ⟨_, rfl⟩
  | false => exact ⟨_, rfl⟩

theorem exists_same (hn : n.IsRegular) : ∃ b, m.same n = .ok b := by
  obtain ⟨t, ht⟩ := h.exists_typeToken
  obtain ⟨u, hu⟩ := hn.exists_typeToken
  rw [same, ht, hu]
  split
  · exact ⟨_, rfl⟩
  · exact ⟨_, rfl⟩

theorem exists_token (erase : TypeVariable → Bool) : ∃ token, m.toTokenWith erase = .ok token := by
  refine ⟨_, toTokenWith_eq ?_ erase⟩
  intro p hp
  exact Shape.erasure?_of_isRegular (h.declared p.type (mem_shapes_of_parameter hp))

theorem answers (s : Store) : m.Answers s where
  descriptor := descriptor_total s h.erased
  typeToken := h.exists_typeToken
  slots := h.exists_slots
  isBootstrap := h.exists_isBootstrap s
  isBootstrapWith := h.isBootstrapWith_ne s
  isProperty := h.exists_isProperty s
  acceptsDefault := h.exists_acceptsDefault s
  token := h.exists_token

end IsRegular

end Method

namespace Shape

theorem isRegular_methods {s : Store} (hs : s.IsRegular) {t : Shape} (ht : t.isRegular = true)
    {ms : List Method} (hms : t.methods s = .ok ms) {m : Method} (hm : m ∈ ms) : m.IsRegular := by
  obtain ⟨id, d, hd, rfl | rfl⟩ := method_cases hms hm
  · exact Method.isRegular_ofDecl ((hs id).methods d hd)
  · exact Method.isRegular_through ((hs id).methods d hd) (Binding.keepsRegular ht) _

/-- All that a regular type leads to is regular, whatever wildcards its arguments hold, and so no
question about its members comes upon a wildcard where an erasure is needed. -/
theorem members_of_reached {s : Store} (hs : s.IsRegular) {P : Shape} (hP : P.isRegular = true)
    {t : Shape} (ht : Reached s P t) :
    t.isRegular = true ∧
    (∀ fs, t.fields s = .ok fs → ∀ f ∈ fs,
      f.type.isRegular = true ∧ ∃ text, f.descriptor s = .ok text) ∧
    ∀ ms, t.methods s = .ok ms → ∀ m ∈ ms,
      (∀ u ∈ m.shapes, u.isRegular = true) ∧ m.Answers s ∧
      ∀ P' t' ns, P'.isRegular = true → Reached s P' t' → t'.methods s = .ok ns →
        ∀ n ∈ ns, ∃ b, m.same n = .ok b := by
  have hregular := ht.isRegular hs hP
  refine ⟨hregular, ?_, ?_⟩
  · intro fs hfs f hf
    have htype := isRegular_fields hs hregular hfs hf
    obtain ⟨e, he⟩ := erasure?_of_isRegular htype
    exact ⟨htype, e.descriptor s, by rw [Field.descriptor, erasure_eq he]; rfl⟩
  · intro ms hms m hm
    have hmethod := isRegular_methods hs hregular hms hm
    refine ⟨hmethod.seen, hmethod.answers s, ?_⟩
    intro P' t' ns hP' ht' hns n hn
    exact hmethod.exists_same (isRegular_methods hs (ht'.isRegular hs hP') hns hn)

/-- `<X extends U> X pick(V, Shelf<? super U, V>)` of the class `Shelf<U, V>`. -/
def pickFromShelf : MethodDecl where
  internalName := "pick"
  flags := .empty
  typeVariables := [⟨"X", [.variable ⟨"U", .type ⟨15⟩, .object⟩]⟩]
  returnType := .variable ⟨"X", .method, .object⟩
  parameters :=
    [⟨.variable ⟨"V", .type ⟨15⟩, .object⟩, none, none⟩,
      ⟨.applied ⟨15⟩ [.lower (.variable ⟨"U", .type ⟨15⟩, .object⟩),
        .variable ⟨"V", .type ⟨15⟩, .object⟩] none, none, none⟩]

/-- `Crate<T>`, which extends `Shelf<T, T[]>`, and `Shelf<U, V>` with a field of type `U[]`. -/
def crateAndShelf : List ClassDecl :=
  [{ name := "p.Crate", flags := .empty, typeVariables := [⟨"T", [.object]⟩],
     superclass := some (.applied ⟨15⟩ [.variable ⟨"T", .type ⟨14⟩, .object⟩,
       .array (.variable ⟨"T", .type ⟨14⟩, .object⟩)] none) },
   { name := "p.Shelf", flags := .empty, typeVariables := [⟨"U", [.object]⟩, ⟨"V", [.object]⟩],
     superclass := some .object
     fields := [⟨"items", .empty, .array (.variable ⟨"U", .type ⟨15⟩, .object⟩), []⟩]
     methods := [pickFromShelf] }]

def crateStore : Store := ⟨(Store.seeds ++ crateAndShelf).toArray⟩

def superStringCrate : Shape := .applied ⟨14⟩ [.lower (.ofClass .string)] none

/-- `Shelf<? super String, Object[]>`, the super type of that: the wildcard stays where it is an
argument, the array has the root class as its component. -/
def superStringShelf : Shape :=
  .applied ⟨15⟩ [.lower (.ofClass .string), .plain (.array .object)] none

theorem members_of_super_string_shelf :
    crateStore.IsRegular ∧ superStringCrate.isRegular = true ∧
    superStringCrate.supertype crateStore = .ok (some superStringShelf) ∧
    superStringShelf.isRegular = true ∧
    (∃ f, superStringShelf.fields crateStore = .ok [f] ∧ f.type = .plain (.array .object) ∧
      f.type.isRegular = true ∧ ∃ text, f.descriptor crateStore = .ok text) ∧
    ∃ m, superStringShelf.methods crateStore = .ok [m] ∧
      m.parameterTypes = [.plain (.array .object),
        .applied ⟨15⟩ [.lower .object, .plain (.array .object)] none] ∧
      (∀ u ∈ m.shapes, u.isRegular = true) ∧ m.Answers crateStore ∧ ∃ b, m.same m = .ok b := by
  have hs : crateStore.IsRegular := by decide
  have hP : superStringCrate.isRegular = true := by decide
  have hsuper : superStringCrate.supertype crateStore = .ok (some superStringShelf) := rfl
  have ht : Reached crateStore superStringCrate superStringShelf := .supertype .start hsuper
  obtain ⟨hregular, hfields, hmethods⟩ := members_of_reached hs hP ht
  refine ⟨hs, hP, hsuper, hregular, ?_, ?_⟩
  · exact ⟨_, rfl, rfl, hfields _ rfl _ (List.mem_singleton_self _)⟩
  · obtain ⟨hseen, hanswers, hsame⟩ := hmethods _ rfl _ (List.mem_singleton_self _)
    exact ⟨_, rfl, rfl, hseen, hanswers,
      hsame _ _ _ hP ht rfl _ (List.mem_singleton_self _)⟩

end Shape

end JvmTypes
