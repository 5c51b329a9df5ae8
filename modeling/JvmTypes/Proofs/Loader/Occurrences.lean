import JvmTypes.Proofs.Loader.Calls
import JvmTypes.Proofs.Loader.ConversionUniform
/-!
# Classes that occur in declarations

A conversion makes up no classes: apart from the root class and the class that it declares, a
declaration holds only classes that the conversion was answered. So whatever occurs in a store that
loading filled has a place there.
-/
namespace JvmTypes

def VariableSource.owner? : VariableSource → Option ClassId
  | .type id => some id
  | .method | .detached => none

def TypeVariable.occurring (v : TypeVariable) : List ClassId :=
  v.erasure.classes ++ v.source.owner?.toList

/-- Every class in the shape: the plain ones, those that are applied and those in references. -/
def Shape.occurring : Shape → List ClassId :=
  gather Erased.classes (fun id => [id]) TypeVariable.occurring

def ClassDecl.occurring (c : ClassDecl) : List ClassId :=
  c.declaring.toList ++ (c.shapes ++ c.methods.flatMap MethodDecl.shapes).flatMap Shape.occurring

namespace Shape

@[simp] theorem occurring_plain (e : Erased) : (plain e).occurring = e.classes := rfl
@[simp] theorem occurring_array (c : Shape) : (array c).occurring = c.occurring := rfl
@[simp] theorem occurring_upper (b : Shape) : (upper b).occurring = b.occurring := rfl
@[simp] theorem occurring_lower (b : Shape) : (lower b).occurring = b.occurring := rfl
@[simp] theorem occurring_reference (v : TypeVariable) :
    (Shape.variable v).occurring = v.occurring := rfl

@[simp] theorem mem_occurring_applied {raw as o} {id : ClassId} :
    id ∈ (applied raw as o).occurring ↔ id = raw ∨ (∃ p ∈ o, id ∈ p.occurring) ∨
      ∃ a ∈ as, id ∈ a.occurring := by
  simp [occurring, mem_gather_applied]

theorem mem_occurring_of_mem_classes {t : Shape} {id : ClassId} (h : id ∈ t.classes) :
    id ∈ t.occurring := by
  induction t with
  | plain e => simpa using h
  | array c ih => exact ih h
  | applied raw as o iha iho =>
    rcases mem_classes_applied.mp h with rfl | ⟨p, hp, h⟩ | ⟨a, ha, h⟩
    · exact mem_occurring_applied.mpr (Or.inl rfl)
    · exact mem_occurring_applied.mpr (Or.inr (Or.inl ⟨p, hp, iho p hp h⟩))
    · exact mem_occurring_applied.mpr (Or.inr (Or.inr ⟨a, ha, iha a ha h⟩))
  | upper b ih => exact ih h
  | lower b ih => exact ih h
  | reference v =>
    rw [classes_reference] at h
    exact List.mem_append_left _ h

end Shape

section Fixed

variable {ρ : ClassId → ClassId}

/-! What a renaming does not change holds only classes that the renaming does not change. -/

theorem fixed_of_map_eq {f : α → α} {xs : List α} (h : xs.map f = xs) : ∀ x ∈ xs, f x = x :=
  List.map_inj_left.mp (h.trans (List.map_id xs).symm)

theorem Erased.rename_eq_self_iff {e : Erased} : e.rename ρ = e ↔ ∀ id ∈ e.classes, ρ id = id := by
  induction e with
  | void => simp [rename, classes]
  | primitive b => simp [rename, classes]
  | cls id => simp [rename, classes]
  | array c ih => simp [rename, classes, ih]

theorem TypeVariable.rename_eq_self_iff {v : TypeVariable} :
    v.rename ρ = v ↔ ∀ id ∈ v.occurring, ρ id = id := by
  obtain ⟨symbol, source, erasure⟩ := v
  cases source <;>
    simp [rename, occurring, VariableSource.rename, VariableSource.owner?,
      Erased.rename_eq_self_iff, or_imp, forall_and, and_comm]

theorem Shape.fixed_of_rename_eq {t : Shape} (h : t.rename ρ = t) :
    ∀ id ∈ t.occurring, ρ id = id := by
  induction t with
  | plain e =>
    rw [rename] at h
    exact Erased.rename_eq_self_iff.mp (Shape.plain.inj h)
  | array c ih =>
    rw [rename] at h
    exact ih (Shape.array.inj h)
  | applied raw as o iha iho =>
    rw [rename_applied] at h
    obtain ⟨hraw, has, ho⟩ := Shape.applied.inj h
    intro id hid
    rcases mem_occurring_applied.mp hid with rfl | ⟨p, hp, hinner⟩ | ⟨a, ha, hinner⟩
    · exact hraw
    · obtain rfl := Option.mem_def.mp hp
      exact iho p hp (Option.some.inj ho) id hinner
    · exact iha a ha (fixed_of_map_eq has a ha) id hinner
  | upper b ih =>
    rw [rename] at h
    exact ih (Shape.upper.inj h)
  | lower b ih =>
    rw [rename] at h
    exact ih (Shape.lower.inj h)
  | reference v =>
    rw [rename] at h
    exact TypeVariable.rename_eq_self_iff.mp (Shape.variable.inj h)

theorem MethodDecl.fixed_of_rename_eq {m : MethodDecl} (h : m.rename ρ = m) :
    ∀ t ∈ m.shapes, t.rename ρ = t := by
  have hbounds : ∀ v ∈ m.typeVariables, v.rename ρ = v :=
    fixed_of_map_eq (congrArg MethodDecl.typeVariables h)
  have hparameters : ∀ p ∈ m.parameters, p.rename ρ = p :=
    fixed_of_map_eq (congrArg MethodDecl.parameters h)
  intro t ht
  simp only [shapes, List.mem_append, List.mem_cons, List.mem_flatMap, List.mem_map] at ht
  rcases ht with ⟨v, hv, ht⟩ | rfl | ⟨p, hp, rfl⟩ | ht
  · exact fixed_of_map_eq (congrArg TypeVarDecl.bounds (hbounds v hv)) t ht
  · exact congrArg MethodDecl.returnType h
  · exact congrArg ParameterDecl.type (hparameters p hp)
  · exact fixed_of_map_eq (congrArg MethodDecl.exceptions h) t ht

theorem ClassDecl.fixed_of_rename_eq {c : ClassDecl} (h : c.rename ρ = c) :
    ∀ id ∈ c.occurring, ρ id = id := by
  have hbounds : ∀ v ∈ c.typeVariables, v.rename ρ = v :=
    fixed_of_map_eq (congrArg ClassDecl.typeVariables h)
  have hfields : ∀ f ∈ c.fields, f.rename ρ = f :=
    fixed_of_map_eq (congrArg ClassDecl.fields h)
  have hmethods : ∀ m ∈ c.methods, m.rename ρ = m :=
    fixed_of_map_eq (congrArg ClassDecl.methods h)
  have hshapes : ∀ t ∈ c.shapes, t.rename ρ = t := by
    intro t ht
    simp only [shapes, List.mem_append, List.mem_flatMap, List.mem_map, Option.mem_toList] at ht
    rcases ht with (⟨v, hv, ht⟩ | ht | ht) | ⟨f, hf, rfl⟩
    · exact fixed_of_map_eq (congrArg TypeVarDecl.bounds (hbounds v hv)) t ht
    · have hsuper := congrArg ClassDecl.superclass h
      rw [rename, Option.mem_def.mp ht] at hsuper
      exact Option.some.inj hsuper
    · exact fixed_of_map_eq (congrArg ClassDecl.interfaces h) t ht
    · exact congrArg FieldDecl.type (hfields f hf)
  intro id hid
  rcases List.mem_append.mp hid with hid | hid
  · have hdeclaring := congrArg ClassDecl.declaring h
    rw [rename, Option.mem_toList.mp hid] at hdeclaring
    exact Option.some.inj hdeclaring
  · obtain ⟨t, ht, hid⟩ := List.mem_flatMap.mp hid
    rcases List.mem_append.mp ht with ht | ht
    · exact Shape.fixed_of_rename_eq (hshapes t ht) id hid
    · obtain ⟨m, hm, ht⟩ := List.mem_flatMap.mp ht
      exact Shape.fixed_of_rename_eq (MethodDecl.fixed_of_rename_eq (hmethods m hm) t ht) id hid

end Fixed

namespace Loader

namespace Script

/-- A script that goes on alike after a renaming yields nothing that the renaming changes, as long
as it gets no answer that the renaming changes. -/
theorem Uniform.fixed {ρ : ClassId → ClassId} {tries : Bool} {r : α → α} {p q : Script α}
    (h : Uniform ρ tries r p q) (hq : q = p) {A : Answers}
    (hcls : ∀ name id, A.cls name id → ρ id = id)
    (hvar : ∀ symbol v, A.var symbol (some v) → v.rename ρ = v) {a : α} (ha : p.Ends A (some a)) :
    r a = a := by
  induction p generalizing tries with
  | done x =>
    obtain rfl := Option.some.inj ha
    cases h
    exact Script.done.inj hq
  | fail fault => cases ha
  | askClass name next ih =>
    cases h with
    | askClass h =>
      cases hq
      rcases ha with ⟨id, hid, ha⟩ | ⟨_, ha⟩
      · have hnext := h id
        rw [hcls name id hid] at hnext
        exact ih id hnext rfl ha
      · cases ha
  | askVariable symbol next ih =>
    cases h with
    | askVariable _ h =>
      cases hq
      obtain ⟨v, hv, ha⟩ := ha
      have hsame : v.map (TypeVariable.rename ρ) = v := by
        cases v with
        | none => rfl
        | some v => exact congrArg some (hvar symbol v hv)
      have hnext := h v
      rw [hsame] at hnext
      exact ih v hnext rfl ha
  | attempt owner signature next ihs ihn =>
    cases h with
    | @attempt _ _ _ _ _ q _ _ _ _ _ hs h =>
      cases hq
      rcases ha with ⟨b, hb, ha⟩ | ⟨_, ha⟩
      · have hsame : b.map q = b := by
          cases b with
          | none => rfl
          | some b => exact congrArg some (ihs hs rfl hb)
        have hnext := h b
        rw [hsame] at hnext
        exact ihn b hnext rfl ha
      · cases ha

/-- What occurs in a declaration is the root class, the class itself or was answered. -/
theorem occurring_of_classDecl {P : ClassId → Prop} {A : Answers} (hobject : P .object)
    (hcls : ∀ name id, A.cls name id → P id)
    (hvar : ∀ symbol v, A.var symbol (some v) → ∀ id ∈ v.occurring, P id) {id : ClassId}
    (hid : P id) {stub : ClassStub} {decl : ClassDecl}
    (h : (classDecl id stub).Ends A (some decl)) : ∀ j ∈ decl.occurring, P j := by
  classical
  -- a renaming that leaves exactly the classes of the kind where they are
  let ρ : ClassId → ClassId := fun j => if P j then j else .object
  have hfixed : ∀ j, P j → ρ j = j := fun j hj => if_pos hj
  have hkind : ∀ j, ρ j = j → P j := by
    intro j hj
    by_contra hother
    have hroot : ρ j = .object := if_neg hother
    rw [hj] at hroot
    exact hother (hroot ▸ hobject)
  have huniform := classDecl_uniform (hfixed _ hobject) id stub
  rw [hfixed id hid] at huniform
  have hdecl : decl.rename ρ = decl := by
    refine huniform.fixed rfl (fun name j hj => hfixed j (hcls name j hj)) ?_ h
    intro symbol v hv
    exact TypeVariable.rename_eq_self_iff.mpr fun j hj => hfixed j (hvar symbol v hv j hj)
  exact fun j hj => hkind j (ClassDecl.fixed_of_rename_eq hdecl j hj)

end Script

end Loader

namespace Store

/-- Whatever occurs in the store has a place there. -/
def Closed (s : Store) : Prop := ∀ id, ∀ j ∈ (s.get id).occurring, j.index < s.size

theorem occurring_placeholder (name : String) :
    (ClassDecl.placeholder name).occurring = [.object] := rfl

theorem Closed.intern {s : Store} (h : s.Closed) (hs : s.Sound) (name : String) :
    (s.intern name).2.Closed := by
  intro id j hj
  cases hp : ((s.intern name).2.get id).isPlaceholder with
  | false =>
    rw [get_intern_of_defined hp] at hj
    exact (h id j hj).trans_le (grows_intern s name).size_le
  | true =>
    rw [(hs.intern name).bare id hp, occurring_placeholder, List.mem_singleton] at hj
    rw [hj]
    exact Nat.zero_lt_of_lt (index_lt_of_lookup? (lookup?_intern s name))

theorem Closed.define {s : Store} (h : s.Closed) {id : ClassId} (hid : id.index < s.size)
    {decl : ClassDecl} (hdecl : ∀ j ∈ decl.occurring, j.index < s.size) :
    (s.define id decl).Closed := by
  intro other j hj
  rw [size_define]
  by_cases ho : other = id
  · rw [ho, get_define_self hid] at hj
    exact hdecl j hj
  · rw [get_define_ne ho] at hj
    exact h other j hj

theorem closed_initial : initial.Closed := by
  have hseeds : ∀ c ∈ seeds, ∀ j ∈ c.occurring, j.index < initial.size := by decide
  intro id j hj
  by_cases hid : id.index < initial.size
  · exact hseeds _ (get_initial_mem hid) j hj
  · rw [get_of_size_le (not_lt.mp hid), occurring_placeholder, List.mem_singleton] at hj
    rw [hj]
    decide

theorem Closed.ofFound {s : Store} (h : s.Closed) {id : ClassId} {symbol : String}
    {found : ClassId × TypeVarDecl} (hfound : s.findVariable? id symbol = some found) :
    ∀ j ∈ (TypeVariable.ofFound found).occurring, j.index < s.size := by
  have hmem : found.2 ∈ (s.get found.1).typeVariables :=
    List.mem_of_find?_eq_some (find?_of_findVariable? hfound)
  have howner : found.1.index < s.size := by
    by_contra hout
    rw [get_of_size_le (not_lt.mp hout)] at hmem
    cases hmem
  intro j hj
  rcases List.mem_append.mp hj with hj | hj
  · rcases TypeVarDecl.mem_classes_erasure hj with rfl | ⟨b, hb, hj⟩
    · exact Nat.zero_lt_of_lt howner
    · refine h found.1 j (List.mem_append_right _ (List.mem_flatMap.mpr ⟨b, ?_, ?_⟩))
      · simp only [ClassDecl.shapes, List.mem_append, List.mem_flatMap]
        exact Or.inl (Or.inl (Or.inl ⟨found.2, hmem, hb⟩))
      · exact Shape.mem_occurring_of_mem_classes hj
  · obtain rfl := List.mem_singleton.mp hj
    exact howner

end Store

namespace Loader

theorem closed_define {source : Source} {config : Config} {stack : List String} {st : State}
    {name : String} {stub : ClassStub} {id : ClassId} {decl : ClassDecl}
    (h : (keeping Store.Closed source config).Holds (name :: stack) st)
    (hid : st.store.lookup? name = some id)
    (hend : (Script.classDecl id stub).Ends
      ((keeping Store.Closed source config).answers (enclosingIn st.store stub) st.store)
      (some decl)) : (st.store.define id decl).Closed := by
  have hlt := Store.index_lt_of_lookup? hid
  refine h.kept.define hlt (Script.occurring_of_classDecl (Nat.zero_lt_of_lt hlt) ?_ ?_ hlt hend)
  · exact fun _ _ hj => Store.index_lt_of_lookup? hj
  · rintro symbol v (hv | hv)
    · cases hv
    · obtain ⟨outer, _, hseen⟩ := Option.bind_eq_some_iff.mp hv.symm
      rw [Scope.ofClass_eq] at hseen
      obtain ⟨found, hfound, rfl⟩ := Option.map_eq_some_iff.mp hseen
      exact h.kept.ofFound hfound

theorem sustained_closed (source : Source) (config : Config) :
    (keeping Store.Closed source config).Sustained :=
  sustained_keeping (fun _ hs hclosed name => hclosed.intern hs name)
    fun _ _ _ _ _ _ h _ hid hend _ => closed_define h hid hend

theorem closed_after {calls : List Call} (hcalls : ∀ c ∈ calls, c.Faithful) :
    (after calls).store.Closed :=
  (holds_after (fun _ hs hclosed name => hclosed.intern hs name) Store.closed_initial
    (fun c hc source config hloader => ⟨hcalls c hc source config hloader,
      sustained_closed source config⟩) (fun _ => none) {}).kept

end Loader

end JvmTypes
