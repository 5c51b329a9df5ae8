import JvmTypes.Proofs.Loader.ConversionScript
/-!
# What conversions fail with

A fault inside a signature is for the loader to settle. Outside of signatures a conversion fails for
nothing but a descriptor that cannot be read. So a lenient loader, which gives a signature up and
goes on with the descriptor, declares every class whose descriptors can be read, whatever its
signatures say.
-/
namespace JvmTypes

/-- Every descriptor of the stub can be read. -/
structure ClassStub.Readable (stub : ClassStub) : Prop where
  fields : ∀ f ∈ stub.fields, ∃ t, f.type = .ok t
  methods : ∀ m ∈ stub.methods, ∃ t, m.type = .ok t

theorem exists_eq_ok_iff {r : Except ε α} : r.toOption.isSome ↔ ∃ a, r = .ok a := by
  cases r <;> simp [Except.toOption]

instance (stub : ClassStub) : Decidable stub.Readable :=
  decidable_of_iff ((∀ f ∈ stub.fields, f.type.toOption.isSome) ∧
      ∀ m ∈ stub.methods, m.type.toOption.isSome) <| by
    simp only [exists_eq_ok_iff]
    exact ⟨fun h => ⟨h.1, h.2⟩, fun h => ⟨h.fields, h.methods⟩⟩

namespace Loader.Script

variable {α β : Type} {P : SignatureFault → Prop}

/-- Whatever is answered, the faults outside of signatures are of a kind. -/
def FailsOnly (P : SignatureFault → Prop) : {α : Type} → Script α → Prop
  | _, .done _ => True
  | _, .fail fault => P fault
  | _, .askClass _ next => ∀ id, FailsOnly P (next id)
  | _, .askVariable _ next => ∀ v, FailsOnly P (next v)
  | _, .attempt _ _ next => ∀ b, FailsOnly P (next b)

theorem failsOnly_pure (a : α) : (pure a : Script α).FailsOnly P := trivial

theorem FailsOnly.bind {p : Script α} {f : α → Script β} (h : p.FailsOnly P)
    (hf : ∀ a, (f a).FailsOnly P) : (p >>= f).FailsOnly P := by
  induction p with
  | done a => exact hf a
  | fail fault => exact h
  | askClass name next ih => exact fun id => ih id (h id) hf
  | askVariable symbol next ih => exact fun v => ih v (h v) hf
  | attempt owner signature next _ ih => exact fun b => ih b (h b) hf

theorem failsOnly_mapM {f : α → Script β} {xs : List α} (h : ∀ x ∈ xs, (f x).FailsOnly P) :
    (xs.mapM f).FailsOnly P := by
  induction xs with
  | nil =>
    rw [List.mapM_nil]
    exact failsOnly_pure []
  | cons x xs ih =>
    rw [List.mapM_cons]
    refine (h x (by simp)).bind fun y => ?_
    refine (ih fun x' hx' => h x' (by simp [hx'])).bind fun ys => ?_
    exact failsOnly_pure (y :: ys)

theorem failsOnly_fromSignature (owner : String) (signature : Option String)
    (convert : String → Script α) : (fromSignature owner signature convert).FailsOnly P := by
  cases signature with
  | none => exact failsOnly_pure none
  | some text => exact fun b => failsOnly_pure b

theorem FailsOnly.orPlain {plain : Script α} (h : plain.FailsOnly P) (found : Option α) :
    (orPlain found plain).FailsOnly P := by
  cases found with
  | some a => exact failsOnly_pure a
  | none => exact h

theorem failsOnly_classNames (toName : String → String) (names : List String) :
    (names.mapM fun n => askClass (toName n) fun id => pure (Shape.ofClass id)).FailsOnly P :=
  failsOnly_mapM fun _ _ _ => failsOnly_pure _

theorem failsOnly_fieldShape (t : FieldType) : (fieldShape t).FailsOnly P := by
  induction t with
  | base b => exact failsOnly_pure _
  | array c ih => exact ih.bind fun _ => failsOnly_pure _
  | object name => exact fun _ => failsOnly_pure _

theorem failsOnly_plainSuperclass (stub : ClassStub) : (plainSuperclass stub).FailsOnly P := by
  unfold plainSuperclass
  cases stub.superclass with
  | none => exact failsOnly_pure none
  | some name =>
    by_cases hinterface : stub.flags.isInterface = true
    · simp only [hinterface, if_true]
      exact failsOnly_pure none
    · simp only [hinterface]
      exact fun _ => failsOnly_pure _

theorem failsOnly_header (sur : Surroundings) (stub : ClassStub) :
    (header sur stub).FailsOnly P := by
  refine (failsOnly_fromSignature _ _ _).bind fun found => FailsOnly.orPlain ?_ found
  refine (failsOnly_plainSuperclass stub).bind fun superclass => ?_
  exact (failsOnly_classNames id stub.interfaces).bind fun interfaces => failsOnly_pure _

theorem failsOnly_fieldDecl (sur : Surroundings) (className : String) {stub : FieldStub}
    (h : ∀ invalid, stub.type = .error invalid →
      P (.reference (.malformedDescriptor (className ++ "." ++ stub.name) invalid))) :
    (fieldDecl sur className stub).FailsOnly P := by
  unfold fieldDecl
  cases ht : stub.type with
  | error invalid => exact h invalid ht
  | ok descriptor =>
    refine (failsOnly_fromSignature _ _ _).bind fun found => ?_
    exact ((failsOnly_fieldShape descriptor).orPlain found).bind fun type => failsOnly_pure _

theorem failsOnly_plainTypes (descriptor : MethodDescriptor) :
    (plainTypes descriptor).FailsOnly P := by
  refine (failsOnly_mapM fun t _ => failsOnly_fieldShape t).bind fun parameters => ?_
  refine FailsOnly.bind ?_ fun returnType => failsOnly_pure _
  cases descriptor.returnType with
  | none => exact failsOnly_pure _
  | some t => exact failsOnly_fieldShape t

theorem failsOnly_exceptionTypes (stub : MethodStub) (types : MethodTypes) :
    (exceptionTypes stub types).FailsOnly P := by
  unfold exceptionTypes
  cases types.exceptions with
  | nil => exact failsOnly_classNames Name.toBinary stub.exceptions
  | cons e es => exact failsOnly_pure _

theorem failsOnly_methodDecl (sur : Surroundings) (className : String) {stub : MethodStub}
    (h : ∀ invalid, stub.type = .error invalid → P (.reference
      (.malformedDescriptor (className ++ "." ++ stub.name ++ stub.descriptor) invalid))) :
    (methodDecl sur className stub).FailsOnly P := by
  unfold methodDecl
  cases ht : stub.type with
  | error invalid => exact h invalid ht
  | ok descriptor =>
    refine (failsOnly_fromSignature _ _ _).bind fun found => ?_
    refine ((failsOnly_plainTypes descriptor).orPlain found).bind fun types => ?_
    exact (failsOnly_exceptionTypes stub types).bind fun exceptions => failsOnly_pure _

theorem failsOnly_classBody (id : ClassId) (declaring : Option ClassId) {stub : ClassStub}
    (hfields : ∀ f ∈ stub.fields, ∀ invalid, f.type = .error invalid →
      P (.reference (.malformedDescriptor (stub.name ++ "." ++ f.name) invalid)))
    (hmethods : ∀ m ∈ stub.methods, ∀ invalid, m.type = .error invalid → P (.reference
      (.malformedDescriptor (stub.name ++ "." ++ m.name ++ m.descriptor) invalid))) :
    (classBody id declaring stub).FailsOnly P := by
  refine (failsOnly_header _ stub).bind fun header => ?_
  refine (failsOnly_mapM fun f hf =>
    failsOnly_fieldDecl header.surroundings stub.name (hfields f hf)).bind fun fields => ?_
  refine (failsOnly_mapM fun m hm =>
    failsOnly_methodDecl header.surroundings stub.name (hmethods m hm)).bind fun methods => ?_
  exact failsOnly_pure _

/-- Unless an answer may fail, the script has a result. -/
def Total (p : Script α) : Prop := ∀ A : Answers, ¬ A.faulty → ¬ p.Ends A none

theorem FailsOnly.total {p : Script α} (h : p.FailsOnly fun _ => False) : p.Total := by
  intro A hA hend
  induction p with
  | done a => simp at hend
  | fail fault => exact h
  | askClass name next ih =>
    rcases hend with ⟨id, _, hend⟩ | ⟨hf, _⟩
    · exact ih id (h id) hend
    · exact hA hf
  | askVariable symbol next ih =>
    obtain ⟨v, _, hend⟩ := hend
    exact ih v (h v) hend
  | attempt owner signature next _ ih =>
    rcases hend with ⟨b, _, hend⟩ | ⟨hf, _⟩
    · exact ih b (h b) hend
    · exact hA hf

theorem total_classDecl (id : ClassId) {stub : ClassStub} (h : stub.Readable) :
    (classDecl id stub).Total := by
  have hbody : ∀ declaring, (classBody id declaring stub).FailsOnly fun _ => False := by
    intro declaring
    refine failsOnly_classBody id declaring ?_ ?_
    · intro f hf invalid herror
      obtain ⟨t, ht⟩ := h.fields f hf
      simp [ht] at herror
    · intro m hm invalid herror
      obtain ⟨t, ht⟩ := h.methods m hm
      simp [ht] at herror
  refine FailsOnly.total ?_
  unfold classDecl
  cases stub.declaring with
  | none => exact hbody none
  | some name => exact fun declaring => hbody (some declaring)

end Loader.Script

end JvmTypes
