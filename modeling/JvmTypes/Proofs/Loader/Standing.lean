import JvmTypes.Proofs.Loader.Completion
import JvmTypes.Proofs.Store.Agreement
/-!
# Scopes in a store that is loaded in full

The enclosing classes of a class in the store are those that the source links it to. So what a
declaration sees of the classes around it stays as it is once these are defined, and in two stores
it is the same if the declarations of these classes are.
-/
namespace JvmTypes

theorem ClassDecl.enclosing_placeholder (name : String) : (placeholder name).enclosing = none := by
  unfold enclosing
  split <;> rfl

namespace Store

theorem enclosing_initial {id : ClassId} (h : id.index < initial.size) :
    (initial.get id).enclosing = none := by
  have hall : ∀ c ∈ seeds, c.enclosing = none := by decide
  exact hall _ (get_initial_mem h)

theorem rename_initial {ρ : ClassId → ClassId} (hρ : ∀ id, id.index < initial.size → ρ id = id)
    {id : ClassId} (h : id.index < initial.size) : (initial.get id).rename ρ = initial.get id := by
  have hobject : ρ .object = .object := hρ _ (by decide)
  have hserializable : ρ .serializable = .serializable := hρ _ (by decide)
  have hcallSite : ρ .callSite = .callSite := hρ _ (by decide)
  have hmethodHandles : ρ .methodHandles = .methodHandles := hρ _ (by decide)
  have hall : ∀ c ∈ seeds, c.rename ρ = c := by
    simp [seeds, ClassDecl.rename, Shape.object, Shape.rename_ofClass, hobject, hserializable,
      hcallSite, hmethodHandles]
  exact hall _ (get_initial_mem h)

end Store

namespace Loader

/-- A store in which the classes of `stack` are in progress and all others that came up are
loaded. -/
structure Standing (source : Source) (stack : List String) (s : Store) : Prop where
  sound : s.Sound
  seeded : Store.initial.Grows s
  complete : Complete source stack s

namespace Standing

variable {source : Source} {stack : List String} {s : Store} {name : String} {id : ClassId}

theorem seed (h : Standing source stack s) (hid : Store.initial.lookup? name = some id) :
    s.lookup? name = some id ∧ s.get id = Store.initial.get id :=
  ⟨h.seeded.lookup? hid, h.seeded.get_eq id (Store.defined_initial (Store.index_lt_of_lookup? hid))⟩

theorem lookup?_initial (h : Standing source stack s) (hid : s.lookup? name = some id)
    (hseed : (Store.initial.get id).isPlaceholder = false) :
    Store.initial.lookup? name = some id := by
  have hlt := Store.index_lt_of_defined hseed
  rw [← Store.name_of_lookup? hid, h.seeded.name_eq id hlt]
  exact Store.sound_initial.lookup?_name hlt

theorem get_of_unknown (h : Standing source stack s) (hid : s.lookup? name = some id)
    (hsource : source name = none) (hown : Store.initial.lookup? name = none) :
    s.get id = .placeholder name := by
  have hp : (s.get id).isPlaceholder = true := by
    by_contra hdefined
    rcases h.complete.origin id (by simpa using hdefined) with hseed | ⟨stub, hstub, _⟩
    · rw [h.lookup?_initial hid hseed] at hown
      cases hown
    · rw [Store.name_of_lookup? hid, hsource] at hstub
      cases hstub
  rw [h.sound.bare id hp, Store.name_of_lookup? hid]

theorem converted (h : Standing source stack s) (hid : s.lookup? name = some id)
    (hdefined : (s.get id).isPlaceholder = false) (hown : Store.initial.lookup? name = none) :
    ∃ stub, source name = some stub ∧ Converted s stub id := by
  rcases h.complete.origin id hdefined with hseed | hstub
  · rw [h.lookup?_initial hid hseed] at hown
    cases hown
  · rwa [Store.name_of_lookup? hid] at hstub

theorem enclosedBy (h : Standing source stack s) (hid : s.lookup? name = some id) {outer : ClassId}
    (houter : (s.get id).enclosing = some outer) :
    ∃ m, EnclosedBy source name m ∧ s.lookup? m = some outer := by
  have hdefined : (s.get id).isPlaceholder = false := by
    by_contra hp
    rw [h.sound.bare id (by simpa using hp), ClassDecl.enclosing_placeholder] at houter
    cases houter
  cases hseed : Store.initial.lookup? name with
  | some i =>
    obtain ⟨hi, hget⟩ := h.seed hseed
    obtain rfl := Option.some.inj (hi.symm.trans hid)
    rw [hget, Store.enclosing_initial (Store.index_lt_of_lookup? hseed)] at houter
    cases houter
  | none =>
    obtain ⟨stub, hstub, hconverted⟩ := h.converted hid hdefined hseed
    rw [hconverted.follows.enclosing, enclosingIn] at houter
    split at houter
    · cases houter
    · obtain ⟨m, hm, hlookup⟩ := Option.bind_eq_some_iff.mp houter
      exact ⟨m, ⟨stub, hstub, hm⟩, hlookup⟩

variable {t : Store} {stack' : List String} {config : Config}
  (hadmissible : Admissible source config)
include hadmissible

/-- From a class around which nothing is in progress the search for a variable always ends alike. -/
theorem findVariable?_stable (hs : Standing source stack s) (ht : Standing source stack' t)
    (hle : s.Grows t) (symbol : String) (hid : s.lookup? name = some id)
    (hfree : ∀ m, Relation.ReflTransGen (EnclosedBy source) name m → m ∉ stack) :
    t.findVariable? id symbol = s.findVariable? id symbol := by
  induction name using hadmissible.wellFounded.induction generalizing id with
  | _ name ih =>
    have hget : t.get id = s.get id := by
      by_cases hdefined : (s.get id).isPlaceholder = false
      · exact hle.get_eq id hdefined
      · have hunknown : source name = none := by
          cases hsource : source name with
          | none => rfl
          | some stub =>
            exact absurd (hs.complete.defined name id (by rw [hsource]; rfl) hid (hfree name .refl))
              hdefined
        have hown : Store.initial.lookup? name = none := by
          cases hseed : Store.initial.lookup? name with
          | none => rfl
          | some i =>
            obtain ⟨hi, hget⟩ := hs.seed hseed
            obtain rfl := Option.some.inj (hi.symm.trans hid)
            rw [hget, Store.defined_initial (Store.index_lt_of_lookup? hseed)] at hdefined
            exact absurd rfl hdefined
        rw [hs.get_of_unknown hid hunknown hown, ht.get_of_unknown (hle.lookup? hid) hunknown hown]
    rw [Store.findVariable?_eq t, Store.findVariable?_eq s, hget]
    cases houter : (s.get id).enclosing with
    | none => rfl
    | some outer =>
      obtain ⟨m, hm, hlookup⟩ := hs.enclosedBy hid houter
      have hstep := ih m hm hlookup fun m' hm' => hfree m' (hm'.head hm)
      rw [Option.bind_some, Option.bind_some, hstep]

/-- What a declaration sees of the classes around it stays, if none of these is in progress. -/
theorem exactly_stable (hs : Standing source stack s) (ht : Standing source stack' t)
    (hle : s.Grows t) {stub : ClassStub} (hstub : source name = some stub)
    (hfree : ∀ m, Relation.TransGen (EnclosedBy source) name m → m ∉ stack) :
    (exactly s (enclosingIn s stub)).Le (exactly t (enclosingIn s stub)) := by
  refine ⟨fun _ _ hi => hle.lookup? hi, ?_, fun hf => hf⟩
  rintro symbol v rfl
  change _ = _
  cases henclosing : enclosingIn s stub with
  | none => rfl
  | some outer =>
    rw [enclosingIn] at henclosing
    split at henclosing
    · cases henclosing
    · obtain ⟨m, hm, hlookup⟩ := Option.bind_eq_some_iff.mp henclosing
      have hstable := findVariable?_stable hadmissible hs ht hle symbol hlookup fun m' hm' =>
        hfree m' (Relation.TransGen.head' ⟨stub, hstub, hm⟩ hm')
      rw [seenFrom, seenFrom, Option.bind_some, Option.bind_some, Scope.ofClass_eq,
        Scope.ofClass_eq, hstable]

end Standing

end Loader

end JvmTypes
