import JvmTypes.Proofs.Loader.Standing
/-!
# Stores that come out alike

Two stores that are loaded in full and settled declare each class alike, since its conversion meets
the same answers in both, from the outermost class inwards. Where they declare all classes alike, a
class that is settled in one is settled in the other.
-/
namespace JvmTypes

theorem ClassDecl.enclosing_rename {ρ : ClassId → ClassId} (c : ClassDecl) :
    (c.rename ρ).enclosing = c.enclosing.map ρ := by
  unfold enclosing rename
  split <;> rfl

theorem TypeVariable.ofFound_rename {ρ : ClassId → ClassId} (hobject : ρ .object = .object)
    (found : ClassId × TypeVarDecl) :
    TypeVariable.ofFound (found.map ρ (TypeVarDecl.rename ρ)) =
      (TypeVariable.ofFound found).rename ρ := by
  simp only [ofFound, rename, VariableSource.rename, Prod.map_fst, Prod.map_snd,
    TypeVarDecl.erasure_rename hobject]
  rfl

namespace Loader

/-- The two stores declare the class alike, if both know it. -/
def Alike (s t : Store) (name : String) : Prop :=
  ∀ i j, s.lookup? name = some i → t.lookup? name = some j →
    t.get j = (s.get i).rename (s.counterpart t)

theorem EnclosedBy.unique {source : Source} {name m m' : String} (h : EnclosedBy source name m)
    (h' : EnclosedBy source name m') : m = m' := by
  obtain ⟨stub, hstub, hm⟩ := h
  obtain ⟨stub', hstub', hm'⟩ := h'
  obtain rfl := Option.some.inj (hstub.symm.trans hstub')
  exact Option.some.inj (hm.symm.trans hm')

namespace Standing

variable {source : Source} {config : Config} {stack stack' : List String} {s t : Store}
  {name : String}

theorem counterpart_seed (hs : Standing source stack s) (ht : Standing source stack' t)
    {id : ClassId} (h : id.index < Store.initial.size) : s.counterpart t id = id := by
  have hid := Store.sound_initial.lookup?_name h
  exact Store.counterpart_eq (hs.seed hid).1 (ht.seed hid).1

theorem counterpart_object (hs : Standing source stack s) (ht : Standing source stack' t) :
    s.counterpart t .object = .object :=
  hs.counterpart_seed ht (by decide)

section Scopes

variable (hadmissible : Admissible source config) (hs : Standing source stack s)
  (ht : Standing source stack' t)
include hadmissible hs ht

theorem findVariable?_alike (symbol : String) {i j : ClassId} (hi : s.lookup? name = some i)
    (hj : t.lookup? name = some j)
    (hall : ∀ m, Relation.ReflTransGen (EnclosedBy source) name m → Alike s t m) :
    t.findVariable? j symbol =
      (s.findVariable? i symbol).map
        (Prod.map (s.counterpart t) (TypeVarDecl.rename (s.counterpart t))) := by
  induction name using hadmissible.wellFounded.induction generalizing i j with
  | _ name ih =>
    have hget := hall name .refl i j hi hj
    have hown : TypeVarDecl.find? symbol (t.get j).typeVariables =
        (TypeVarDecl.find? symbol (s.get i).typeVariables).map
          (TypeVarDecl.rename (s.counterpart t)) := by
      rw [hget]
      exact TypeVarDecl.find?_mapBounds _ symbol _
    have hplace : s.counterpart t i = j := Store.counterpart_eq hi hj
    rw [Store.findVariable?_eq t, Store.findVariable?_eq s, hown]
    cases TypeVarDecl.find? symbol (s.get i).typeVariables with
    | some v => simp [hplace]
    | none =>
      have henclosing : (t.get j).enclosing = (s.get i).enclosing.map (s.counterpart t) := by
        rw [hget, ClassDecl.enclosing_rename]
      cases houter : (s.get i).enclosing with
      | none =>
        rw [houter] at henclosing
        simp [henclosing]
      | some outer =>
        rw [houter, Option.map_some] at henclosing
        obtain ⟨m, hm, hlookup⟩ := hs.enclosedBy hi houter
        obtain ⟨m', hm', hlookup'⟩ := ht.enclosedBy hj henclosing
        obtain rfl := hm.unique hm'
        have hstep := ih m hm hlookup hlookup' fun m' hm' => hall m' (hm'.head hm)
        simp [henclosing, hstep]

theorem seenFrom_alike {stub : ClassStub} (hstub : source name = some stub)
    (hboth : ∀ outer, stub.declaring = some outer →
        (s.lookup? outer).isSome = (t.lookup? outer).isSome)
    (hall : ∀ m, Relation.TransGen (EnclosedBy source) name m → Alike s t m) (symbol : String) :
    seenFrom t (enclosingIn t stub) symbol =
      (seenFrom s (enclosingIn s stub) symbol).map (TypeVariable.rename (s.counterpart t)) := by
  by_cases hstatic : stub.flags.isStatic = true
  · simp [enclosingIn, hstatic, seenFrom]
  · cases hd : stub.declaring with
    | none => simp [enclosingIn, hd, seenFrom]
    | some outer =>
      have houter := hboth outer hd
      cases hi : s.lookup? outer with
      | none =>
        have hj : t.lookup? outer = none := by simpa [hi] using houter
        simp [enclosingIn, hd, hi, hj, seenFrom]
      | some i =>
        obtain ⟨j, hj⟩ := Option.isSome_iff_exists.mp (houter.symm.trans (by rw [hi]; rfl))
        have hfound := findVariable?_alike hadmissible hs ht symbol hi hj fun m hm =>
          hall m (Relation.TransGen.head' ⟨stub, hstub, hd⟩ hm)
        have hfun : TypeVariable.ofFound ∘ Prod.map (s.counterpart t)
            (TypeVarDecl.rename (s.counterpart t)) =
            TypeVariable.rename (s.counterpart t) ∘ TypeVariable.ofFound :=
          funext (TypeVariable.ofFound_rename (hs.counterpart_object ht))
        simp only [enclosingIn, hstatic, hd, hi, hj, seenFrom, Bool.false_eq_true, if_false,
          Option.bind_some, Scope.ofClass_eq, hfound, Option.map_map, hfun]

end Scopes

end Standing

theorem Settled.ends {source : Source} {config : Config} {s : Store} {name : String}
    {stub : ClassStub} {id : ClassId} (h : Settled source config s)
    (hlenient : config.strict = false) (hstub : source name = some stub)
    (hid : s.lookup? name = some id) (hown : Store.initial.lookup? name = none) :
    (Script.classDecl id stub).Ends (exactly s (enclosingIn s stub)) (some (s.get id)) :=
  (classDecl_intern_iff hlenient).mp (h name stub id hstub hid hown)

namespace Standing

variable {source : Source} {config : Config} {s t : Store} (hadmissible : Admissible source config)
  (hs : Standing source [] s) (ht : Standing source [] t)
include hadmissible hs ht

section Settled

variable (hsettled : Settled source config s) (hsettled' : Settled source config t)
include hsettled hsettled'

omit hs ht in
theorem declaring_alike {name : String} {stub : ClassStub} {i j : ClassId}
    (hstub : source name = some stub) (hi : s.lookup? name = some i) (hj : t.lookup? name = some j)
    (hown : Store.initial.lookup? name = none) :
    ∀ outer, stub.declaring = some outer → (s.lookup? outer).isSome = (t.lookup? outer).isSome := by
  have hend := hsettled.ends hadmissible.lenient hstub hi hown
  have hend' := hsettled'.ends hadmissible.lenient hstub hj hown
  intro outer houter
  rw [(follows_of_classDecl (fun _ _ h => h) hend).declaring outer houter,
    (follows_of_classDecl (fun _ _ h => h) hend').declaring outer houter]

theorem alike_of_above {name : String}
    (hall : ∀ m, Relation.TransGen (EnclosedBy source) name m → Alike s t m) :
    Alike s t name := by
  intro i j hi hj
  have hobject := hs.counterpart_object ht
  cases hown : Store.initial.lookup? name with
  | some k =>
    obtain ⟨hk, hget⟩ := hs.seed hown
    obtain ⟨hk', hget'⟩ := ht.seed hown
    obtain rfl := Option.some.inj (hk.symm.trans hi)
    obtain rfl := Option.some.inj (hk'.symm.trans hj)
    rw [hget, hget']
    exact (Store.rename_initial (fun _ h => hs.counterpart_seed ht h)
      (Store.index_lt_of_lookup? hown)).symm
  | none =>
    cases hstub : source name with
    | none =>
      rw [hs.get_of_unknown hi hstub hown, ht.get_of_unknown hj hstub hown]
      simp [ClassDecl.placeholder, ClassDecl.rename, Shape.object, Shape.rename_ofClass, hobject]
    | some stub =>
      have hend := hsettled.ends hadmissible.lenient hstub hi hown
      have hend' := hsettled'.ends hadmissible.lenient hstub hj hown
      have hboth := declaring_alike hadmissible hsettled hsettled' hstub hi hj hown
      have hplace : s.counterpart t i = j := Store.counterpart_eq hi hj
      rw [← hplace] at hend'
      have halike := (Script.classDecl_uniform hobject i stub).unique
        (fun _ _ _ hi hj => (Store.counterpart_eq hi hj).symm)
        (fun symbol v w hv hw => by
          rw [hv, hw]
          exact seenFrom_alike hadmissible hs ht hstub hboth hall symbol)
        (fun hf => hf) (fun hf => hf) hend hend'
      rw [← hplace]
      exact Option.some.inj halike

theorem alike (name : String) : Alike s t name := by
  have habove : ∀ m, Relation.ReflTransGen (EnclosedBy source) name m → Alike s t m := by
    induction name using hadmissible.wellFounded.induction with
    | _ name ih =>
      have houter : ∀ m, Relation.TransGen (EnclosedBy source) name m → Alike s t m := by
        intro m hm
        obtain ⟨outer, houter, hm⟩ := Relation.TransGen.head'_iff.mp hm
        exact ih outer houter m hm
      intro m hm
      rcases Relation.reflTransGen_iff_eq_or_transGen.mp hm with rfl | hm
      · exact alike_of_above hadmissible hs ht hsettled hsettled' houter
      · exact houter m hm
  exact habove name .refl

theorem wanted_alike {listed listed' : List String} (hlisted : ∀ n ∈ listed, n ∈ listed')
    (hknown : ∀ n ∈ listed', (source n).isSome → (t.lookup? n).isSome) {name : String}
    (h : Wanted source s listed name) : Wanted source t listed' name ∧ (t.lookup? name).isSome := by
  induction h with
  | seed h =>
    obtain ⟨id, hid⟩ := Option.isSome_iff_exists.mp h
    exact ⟨.seed h, Option.isSome_iff_exists.mpr ⟨id, (ht.seed hid).1⟩⟩
  | listed h hsource => exact ⟨.listed (hlisted _ h) hsource, hknown _ (hlisted _ h) hsource⟩
  | @asked inner name stub i _ hstub hi hown hasks ih =>
    obtain ⟨hw, hsome⟩ := ih
    obtain ⟨j, hj⟩ := Option.isSome_iff_exists.mp hsome
    have hend := hsettled.ends hadmissible.lenient hstub hi hown
    have hend' := hsettled'.ends hadmissible.lenient hstub hj hown
    have hboth := declaring_alike hadmissible hsettled hsettled' hstub hi hj hown
    have hplace : s.counterpart t i = j := Store.counterpart_eq hi hj
    have hasks' : (Script.classDecl j stub).Asks (exactly t (enclosingIn t stub)) (.cls name) := by
      have huniform := Script.classDecl_uniform (hs.counterpart_object ht) i stub
      rw [hplace] at huniform
      exact huniform.asks (fun _ _ _ hi hj => (Store.counterpart_eq hi hj).symm)
        (fun symbol v w hv hw => by
          rw [hv, hw]
          exact seenFrom_alike hadmissible hs ht hstub hboth
            (fun m _ => alike hadmissible hs ht hsettled hsettled' m) symbol)
        (functional_exactly _ _) (fun hf => hf) hend hend' hasks
    obtain ⟨id, hid⟩ := hasks'.answered (functional_exactly _ _) hend'
    exact ⟨.asked hw hstub hj hown hasks', Option.isSome_iff_exists.mpr ⟨id, hid⟩⟩

end Settled

/-- Between stores that agree a class that is settled in one is settled in the other. -/
theorem ends_of_agrees (hagrees : s.Agrees t) {name : String} {stub : ClassStub} {i j : ClassId}
    (hstub : source name = some stub) (hi : s.lookup? name = some i) (hj : t.lookup? name = some j)
    (hend : (Script.classDecl i stub).Ends (exactly s (enclosingIn s stub)) (some (s.get i))) :
    (Script.classDecl j stub).Ends (exactly t (enclosingIn t stub)) (some (t.get j)) := by
  have hplace : s.counterpart t i = j := Store.counterpart_eq hi hj
  have halike : ∀ m, Alike s t m := by
    intro m i j hi hj
    rw [← Store.counterpart_eq hi hj]
    exact hagrees.get_counterpart hi
  have hget := halike name i j hi hj
  have huniform := Script.classDecl_uniform (hs.counterpart_object ht) i stub
  rw [hplace] at huniform
  rw [hget]
  refine huniform.ends (A := exactly s (enclosingIn s stub)) (B := exactly t (enclosingIn t stub))
    (fun _ _ hi => hagrees.lookup?_eq hi) ?_ (fun hf => hf) hend
  rintro symbol v rfl
  exact (seenFrom_alike hadmissible hs ht hstub (fun outer _ => hagrees.lookup?_isSome outer)
    (fun m _ => halike m) symbol).symm

end Standing

end Loader

end JvmTypes
