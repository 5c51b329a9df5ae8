import JvmTypes.Binding
import JvmTypes.Method.Text
import JvmTypes.Proofs.Descriptor
import JvmTypes.Proofs.Loader.Calls
import JvmTypes.Proofs.Name
/-!
# Dispatch slots

The runtime tells methods apart by name and descriptor, methods are compared by name and erased
types. In a store whose class names can stand in a descriptor the two agree, since a descriptor
is read back to the types that it was written for.
-/
namespace JvmTypes

namespace Store

/-- The name is got back from the descriptor of the class. -/
def IsDescribable (name : String) : Prop :=
  name ≠ "" ∧ '/' ∉ name.toList ∧ ';' ∉ name.toList

instance (name : String) : Decidable (IsDescribable name) :=
  inferInstanceAs (Decidable (_ ∧ _ ∧ _))

end Store

namespace Erased

def IsValue (s : Store) : Erased → Prop
  | .void => False
  | .primitive _ => True
  | .cls id => id.index < s.size
  | .array component => component.IsValue s

instance decidableIsValue (s : Store) : ∀ e : Erased, Decidable (e.IsValue s)
  | .void => isFalse id
  | .primitive _ => isTrue trivial
  | .cls id => inferInstanceAs (Decidable (id.index < s.size))
  | .array component => decidableIsValue s component

end Erased

/-- The type that a descriptor stands for in a store, if the store knows its class. -/
def FieldType.erased? (s : Store) : FieldType → Option Erased
  | .base b => some (.primitive b)
  | .object name => (s.lookup? (Name.toBinary name)).map .cls
  | .array component => (component.erased? s).map .array

def MethodDescriptor.typeToken? (s : Store) (d : MethodDescriptor) : Option Method.TypeToken := do
  let ps ← d.parameters.mapM (FieldType.erased? s)
  let r ← match d.returnType with
    | none => some .void
    | some t => t.erased? s
  some ⟨r, ps⟩

namespace Method.TypeToken

/-- Parameters are values, and `void` is at most the whole return type. -/
structure IsDescribed (s : Store) (t : TypeToken) : Prop where
  parameters : ∀ p ∈ t.parameterTypes, p.IsValue s
  returnType : t.returnType = .void ∨ t.returnType.IsValue s

instance (s : Store) (t : TypeToken) : Decidable (t.IsDescribed s) :=
  decidable_of_iff ((∀ p ∈ t.parameterTypes, p.IsValue s) ∧
      (t.returnType = .void ∨ t.returnType.IsValue s))
    ⟨fun h => ⟨h.1, h.2⟩, fun h => ⟨h.parameters, h.returnType⟩⟩

def descriptor (s : Store) (t : TypeToken) : String :=
  "(" ++ String.join (t.parameterTypes.map (Erased.descriptor s)) ++ ")" ++
    t.returnType.descriptor s

end Method.TypeToken

section Reading

variable {s : Store} (hs : s.Reached)
  (hnames : ∀ id : ClassId, id.index < s.size → Store.IsDescribable (s.name id))
include hs hnames

theorem Erased.exists_fieldType : ∀ {e : Erased}, e.IsValue s →
    ∃ t : FieldType, t.IsNamed ∧ Descriptor.write t = (e.descriptor s).toList ∧
      t.erased? s = some e
  | .void, h => h.elim
  | .primitive b, _ => ⟨.base b, trivial, by simp [Descriptor.write, descriptor], rfl⟩
  | .cls id, h => by
    obtain ⟨hne, hslash, hsemicolon⟩ := hnames id h
    refine ⟨.object (Name.toInternal (s.name id)), ⟨?_, ?_⟩, ?_, ?_⟩
    · intro hempty
      have hback := Name.toBinary_toInternal hslash
      rw [hempty] at hback
      exact hne hback.symm
    · intro hmem
      rcases Name.mem_of_mem_replaceChar hmem with heq | hmem
      · exact absurd heq (by decide)
      · exact hsemicolon hmem
    · simp [Descriptor.write, descriptor]
    · rw [FieldType.erased?, Name.toBinary_toInternal hslash, hs.distinctNames.lookup?_name h]
      rfl
  | .array component, h => by
    obtain ⟨t, hnamed, hwrite, hread⟩ := exists_fieldType (e := component) h
    refine ⟨.array t, hnamed, ?_, ?_⟩
    · simp [Descriptor.write, descriptor, hwrite]
    · rw [FieldType.erased?, hread]
      rfl

theorem Erased.exists_fieldTypes : ∀ {es : List Erased}, (∀ e ∈ es, e.IsValue s) →
    ∃ ts : List FieldType, (∀ t ∈ ts, t.IsNamed) ∧
      ts.flatMap Descriptor.write = (String.join (es.map (Erased.descriptor s))).toList ∧
      ts.mapM (FieldType.erased? s) = some es
  | [], _ => ⟨[], List.forall_mem_nil _, rfl, rfl⟩
  | e :: es, h => by
    obtain ⟨he, hes⟩ := List.forall_mem_cons.mp h
    obtain ⟨t, hnamed, hwrite, hread⟩ := Erased.exists_fieldType hs hnames he
    obtain ⟨ts, hall, hwrites, hreads⟩ := exists_fieldTypes hes
    refine ⟨t :: ts, List.forall_mem_cons.mpr ⟨hnamed, hall⟩, ?_, ?_⟩
    · simp [hwrite, hwrites]
    · rw [List.mapM_cons, hread, hreads]
      rfl

theorem Method.TypeToken.exists_methodDescriptor {t : TypeToken} (h : t.IsDescribed s) :
    ∃ d : MethodDescriptor, d.IsNamed ∧ d.descriptor = t.descriptor s ∧
      d.typeToken? s = some t := by
  obtain ⟨ts, hnamed, hwrite, hread⟩ := Erased.exists_fieldTypes hs hnames h.parameters
  rcases t with ⟨r, ps⟩
  rcases h.returnType with hvoid | hvalue
  · obtain rfl : r = .void := hvoid
    refine ⟨⟨ts, none⟩, MethodDescriptor.isNamed_iff.mpr ⟨hnamed, by simp⟩, ?_, ?_⟩
    · rw [← String.toList_inj]
      simp [MethodDescriptor.descriptor, Descriptor.writeMethod, hwrite, descriptor,
        Erased.descriptor]
    · simp only [MethodDescriptor.typeToken?, hread]
      rfl
  · obtain ⟨f, hf, hwritef, hreadf⟩ := Erased.exists_fieldType hs hnames hvalue
    refine ⟨⟨ts, some f⟩, MethodDescriptor.isNamed_iff.mpr ⟨hnamed, by simpa using hf⟩, ?_, ?_⟩
    · rw [← String.toList_inj]
      simp [MethodDescriptor.descriptor, Descriptor.writeMethod, hwrite, hwritef, descriptor]
    · simp only [MethodDescriptor.typeToken?, hread, hreadf]
      rfl

/-- Descriptors tell erased types apart. -/
theorem Method.TypeToken.eq_of_descriptor_eq {t u : TypeToken} (ht : t.IsDescribed s)
    (hu : u.IsDescribed s) (heq : t.descriptor s = u.descriptor s) : t = u := by
  obtain ⟨d, hd, hwrited, hreadd⟩ := exists_methodDescriptor hs hnames ht
  obtain ⟨e, he, hwritee, hreade⟩ := exists_methodDescriptor hs hnames hu
  have hde : d = e :=
    MethodDescriptor.eq_of_descriptor_eq hd he (hwrited.trans (heq.trans hwritee.symm))
  rw [hde, hreade] at hreadd
  exact (Option.some.inj hreadd).symm

end Reading

namespace Method

variable {s : Store} {m n : Method} {t u : TypeToken}

theorem descriptor_of_typeToken (h : m.typeToken = .ok t) :
    m.descriptor s = .ok (t.descriptor s) := by
  rw [typeToken] at h
  rcases hr : m.returnType.erasure with e | r
  · rw [hr] at h
    cases h
  · rcases hps : Shape.erasures m.parameterTypes with e | ps
    · rw [hr, hps] at h
      cases h
    · rw [hr, hps] at h
      cases h
      rw [descriptor, hr, hps]
      rfl

/-- Two methods are equal exactly if the one represents the name and descriptor of the other. The
descriptor is a proper one, and its class names lead back to the erased types. -/
theorem same_iff_represents (hs : s.Reached)
    (hnames : ∀ id : ClassId, id.index < s.size → Store.IsDescribable (s.name id))
    (hm : m.typeToken = .ok t) (ht : t.IsDescribed s) (hn : n.typeToken = .ok u)
    (hu : u.IsDescribed s) :
    (∃ text, n.descriptor s = .ok text ∧
      ∃ answer, m.same n = .ok answer ∧ m.represents s n.internalName text = .ok answer) ∧
    ∃ text d, m.descriptor s = .ok text ∧ MethodDescriptor.parse text = .ok d ∧
      d.typeToken? s = some t := by
  refine ⟨⟨u.descriptor s, descriptor_of_typeToken hn, ?_⟩, ?_⟩
  · by_cases hname : m.internalName = n.internalName
    · have hiff : t = u ↔ t.descriptor s = u.descriptor s :=
        ⟨fun heq => heq ▸ rfl, TypeToken.eq_of_descriptor_eq hs hnames ht hu⟩
      refine ⟨decide (t = u), ?_, ?_⟩
      · rw [same, if_pos hname, hm, hn]
        rfl
      · rw [represents, if_pos hname, descriptor_of_typeToken hm, decide_eq_decide.mpr hiff]
        rfl
    · exact ⟨false, if_neg hname, if_neg hname⟩
  · obtain ⟨d, hd, hwrite, hread⟩ := TypeToken.exists_methodDescriptor hs hnames ht
    exact ⟨t.descriptor s, d, descriptor_of_typeToken hm,
      MethodDescriptor.parse_eq_ok.mpr ⟨hd, hwrite⟩, hread⟩

def slotStore : Store :=
  (Store.initial.add
    { name := "p.Box", flags := .empty, typeVariables := [⟨"T", [.object]⟩],
      superclass := some .object }).2

def fill : Method :=
  let element : Shape := .variable ⟨"T", .type ⟨14⟩, .object⟩
  .ofDecl ⟨14⟩
    { internalName := "fill", flags := .empty, returnType := .void,
      parameters := [⟨element, none, none⟩, ⟨.array element, none, none⟩,
        ⟨.plain (.primitive .long), none, none⟩] }

def fillStrings : Method :=
  let box : Shape := .applied ⟨14⟩ [.plain (.array (.cls .string))] none
  fill.through box (Binding.ofShape slotStore box).toSubstitution

theorem describable_slotStore :
    ∀ id : ClassId, id.index < slotStore.size → Store.IsDescribable (slotStore.name id) := by
  have hall : ∀ i < slotStore.size, Store.IsDescribable (slotStore.name ⟨i⟩) := by decide +kernel
  intro id hid
  exact hall id.index hid

/-- The view takes another slot, which its descriptor tells as well. -/
theorem fill_represents_own_slot :
    (∃ t, fill.typeToken = .ok t ∧ t.IsDescribed slotStore) ∧
    (∃ u, fillStrings.typeToken = .ok u ∧ u.IsDescribed slotStore) ∧
    fillStrings.descriptor slotStore = .ok "([Ljava/lang/String;[[Ljava/lang/String;J)V" ∧
    fill.same fillStrings = .ok false ∧
    fill.represents slotStore "fill" "([Ljava/lang/String;[[Ljava/lang/String;J)V" = .ok false ∧
    ∃ text d t, fill.descriptor slotStore = .ok text ∧ MethodDescriptor.parse text = .ok d ∧
      d.typeToken? slotStore = some t ∧ fill.typeToken = .ok t := by
  have hreached : slotStore.Reached := Store.Reached.add .initial _
  have hfill : fill.typeToken =
      .ok ⟨.void, [.object, .array .object, .primitive .long]⟩ := by decide +kernel
  have hstrings : fillStrings.typeToken =
      .ok ⟨.void, [.array (.cls .string), .array (.array (.cls .string)), .primitive .long]⟩ := by
    decide +kernel
  have hdescriptor : fillStrings.descriptor slotStore =
      .ok "([Ljava/lang/String;[[Ljava/lang/String;J)V" := by decide +kernel
  have hdiffer : fill.same fillStrings = .ok false := by decide +kernel
  obtain ⟨⟨text, htext, answer, hsame, hrepresents⟩, text', d, htext', hparse, hread⟩ :=
    same_iff_represents hreached describable_slotStore hfill (by decide +kernel) hstrings
      (by decide +kernel)
  obtain rfl := Except.ok.inj (hdescriptor.symm.trans htext)
  obtain rfl := Except.ok.inj (hdiffer.symm.trans hsame)
  exact ⟨⟨_, hfill, by decide +kernel⟩, ⟨_, hstrings, by decide +kernel⟩, hdescriptor, hdiffer,
    hrepresents, text', d, _, htext', hparse, hread, hfill⟩

end Method

end JvmTypes
