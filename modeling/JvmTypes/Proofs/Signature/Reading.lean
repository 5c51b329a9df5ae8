import JvmTypes.Proofs.Signature.Grammar
/-!
# What the reader accepts

Each reader takes a spelling of its tree off the front of a text and leaves the rest, whatever the
rest is: it accepts every spelling, and what it accepts is one. The first part bounds the depth of
the nested calls by the length of the text that is left, the second follows the calls.
-/
namespace JvmTypes.Signature

def Stops (ends text : List Char) : Prop := ∃ c rest, text = c :: rest ∧ c ∈ ends

theorem Stops.cons {ends : List Char} {c : Char} (rest : List Char) (h : c ∈ ends) :
    Stops ends (c :: rest) :=
  ⟨c, rest, rfl, h⟩

theorem bind_eq_ok {m : Except ε (α × β)} {f : α × β → Except ε γ} {c : γ} :
    (m >>= f) = .ok c ↔ ∃ a b, m = .ok (a, b) ∧ f (a, b) = .ok c := by
  rcases m with e | ⟨a, b⟩
  · constructor
    · intro h; cases h
    · rintro ⟨a, b, h, _⟩; cases h
  · constructor
    · exact fun h => ⟨a, b, rfl, h⟩
    · rintro ⟨a, b, h, hf⟩
      cases h
      exact hf

theorem bind_of_ok {m : Except ε α} {f : α → Except ε β} {a : α} (h : m = .ok a) :
    (m >>= f) = f a := by
  rw [h]; rfl

theorem expect_bind_eq_ok {c : Char} {text : List Char} {f : List Char → Except Reason α} {a : α} :
    (expect c text >>= f) = .ok a ↔ ∃ rest, text = c :: rest ∧ f rest = .ok a := by
  constructor
  · intro h
    rcases text with _ | ⟨d, rest⟩
    · cases h
    · by_cases hd : d = c
      · subst hd
        rw [expect, if_pos rfl] at h
        exact ⟨rest, rfl, h⟩
      · rw [expect, if_neg hd] at h
        cases h
  · rintro ⟨rest, rfl, h⟩
    rw [expect, if_pos rfl]
    exact h

theorem identifier_append {ends name rest : List Char} (hname : Fits ends name)
    (hrest : Stops ends rest) : identifier ends (name ++ rest) = .ok (name, rest) := by
  obtain ⟨c, rest, rfl, hc⟩ := hrest
  have hall : ∀ d ∈ name, decide (d ∉ ends) = true := fun d hd => decide_eq_true (hname.2 d hd)
  have htake : (name ++ c :: rest).takeWhile (· ∉ ends) = name := by
    rw [List.takeWhile_append_of_pos hall, List.takeWhile_cons_of_neg (by simpa using hc),
      List.append_nil]
  have hdrop : (name ++ c :: rest).dropWhile (· ∉ ends) = c :: rest := by
    rw [List.dropWhile_append_of_pos hall, List.dropWhile_cons_of_neg (by simpa using hc)]
  rw [identifier, htake, hdrop]
  obtain ⟨d, name, rfl⟩ := List.exists_cons_of_ne_nil hname.1
  rfl

theorem of_identifier {ends text name rest : List Char}
    (h : identifier ends text = .ok (name, rest)) : text = name ++ rest ∧ Fits ends name := by
  rw [identifier] at h
  split at h
  case h_1 => cases h
  case h_2 hne =>
    cases h
    exact ⟨List.takeWhile_append_dropWhile.symm, hne,
      fun c hc => by simpa using List.mem_takeWhile_imp hc⟩

/-! ### Every spelling is accepted -/

theorem readVariable_append {name : String} (hname : Fits variableEnds name.toList)
    (rest : List Char) :
    readVariable (name.toList ++ ';' :: rest) = .ok (.variable name, rest) := by
  rw [readVariable, bind_of_ok (identifier_append hname (.cons rest (by decide)))]
  simp only [String.ofList_toList]
  rfl

theorem readQualifiedName_append {package name : String} {qualified rest : List Char}
    (hfits : Fits classEnds qualified)
    (hsplit : Name.splitLast '/' qualified = (package.toList, name.toList))
    (hname : name.toList ≠ []) (hrest : Stops classEnds rest) :
    readQualifiedName (qualified ++ rest) = .ok ((package, name), rest) := by
  rw [readQualifiedName, bind_of_ok (identifier_append hfits hrest)]
  simp only [hsplit, if_neg hname, String.ofList_toList]

theorem TypeTree.Spells.head {t : TypeTree} {w : List Char} (hw : t.Spells w) (ht : t.isReference) :
    ∃ c v, w = c :: v ∧ c ∈ ['L', 'T', '['] := by
  cases hw with
  | base => cases ht
  | ofClass => exact ⟨_, _, rfl, by decide⟩
  | ofVariable => exact ⟨_, _, rfl, by decide⟩
  | array => exact ⟨_, _, rfl, by decide⟩

theorem Argument.Spells.head {a : Argument} {w : List Char} (hw : a.Spells w) :
    ∃ c v, w = c :: v ∧ c ∈ ['*', '+', '-', 'L', 'T', '['] := by
  cases hw with
  | any => exact ⟨_, _, rfl, by decide⟩
  | exact ht hw =>
    obtain ⟨c, v, rfl, hc⟩ := hw.head ht
    exact ⟨c, v, rfl, List.mem_append_right ['*', '+', '-'] hc⟩
  | upper => exact ⟨_, _, rfl, by decide⟩
  | lower => exact ⟨_, _, rfl, by decide⟩

theorem ArgumentsSpell.stops {as : List Argument} {w rest : List Char} (hw : ArgumentsSpell as w)
    (hrest : Stops ['.', ';'] rest) : Stops classEnds (w ++ rest) := by
  cases hw with
  | none =>
    obtain ⟨c, rest, rfl, hc⟩ := hrest
    exact .cons _ (List.mem_cons_of_mem '<' (by revert hc; simp [or_comm]))
  | some => exact .cons _ (by decide)

theorem readReference_head {fuel : Nat} {c : Char} {text : List Char} (hc : c ∈ ['L', 'T', '[']) :
    readArgument (fuel + 1) (c :: text) = (do
      let (t, rest) ← readReference fuel (c :: text)
      .ok (.exact t, rest)) ∧
    readComponent (fuel + 1) (c :: text) = readReference fuel (c :: text) := by
  simp only [List.mem_cons, List.not_mem_nil, or_false] at hc
  rcases hc with rfl | rfl | rfl <;> exact ⟨by simp [readArgument], rfl⟩

theorem readMembers_close {fuel : Nat} {c : ClassTree} {rest : List Char}
    (hfuel : 4 * (';' :: rest).length ≤ fuel) :
    readMembers fuel c (';' :: rest) = .ok (c, rest) := by
  rw [List.length_cons] at hfuel
  obtain ⟨fuel, rfl⟩ : ∃ n, fuel = n + 1 := ⟨fuel - 1, by omega⟩
  rfl

theorem TypeTree.Spells.readComponent_of {t : TypeTree} {w : List Char} (hw : t.Spells w)
    (href : t.isReference → ∀ (fuel : Nat) (rest : List Char), 4 * (w ++ rest).length ≤ fuel →
      readReference fuel (w ++ rest) = .ok (t, rest))
    {fuel : Nat} {rest : List Char} (hfuel : 4 * (w ++ rest).length + 1 ≤ fuel) :
    readComponent fuel (w ++ rest) = .ok (t, rest) := by
  obtain ⟨fuel, rfl⟩ : ∃ n, fuel = n + 1 := ⟨fuel - 1, by omega⟩
  by_cases ht : t.isReference
  · obtain ⟨c, v, rfl, hc⟩ := hw.head ht
    have hread := href ht fuel rest (by omega)
    rw [List.cons_append] at hread ⊢
    rw [(readReference_head hc).2, hread]
  · cases hw with
    | base b => simp [readComponent]
    | ofClass | ofVariable | array => simp [isReference] at ht

mutual

theorem TypeTree.Spells.readReference : ∀ {t : TypeTree} {w : List Char}, t.Spells w →
    t.isReference → ∀ (fuel : Nat) (rest : List Char), 4 * (w ++ rest).length ≤ fuel →
    Signature.readReference fuel (w ++ rest) = .ok (t, rest)
  | _, _, .base b, ht => by cases ht
  | .classType c, _, .ofClass hc, _ => by
    intro fuel rest hfuel
    simp only [List.cons_append, List.append_assoc, List.length_cons, List.nil_append] at hfuel ⊢
    obtain ⟨fuel, rfl⟩ : ∃ n, fuel = n + 1 := ⟨fuel - 1, by omega⟩
    rw [Signature.readReference, bind_of_ok
      (hc.readClassBody _ _ _ (.cons _ (by decide)) (fun _ => readMembers_close) (by omega))]
  | _, _, .ofVariable name hname, _ => by
    intro fuel rest hfuel
    simp only [List.cons_append, List.append_assoc, List.length_cons, List.nil_append] at hfuel ⊢
    obtain ⟨fuel, rfl⟩ : ∃ n, fuel = n + 1 := ⟨fuel - 1, by omega⟩
    exact readVariable_append hname rest
  | _, _, .array hw, _ => by
    intro fuel rest hfuel
    simp only [List.cons_append, List.length_cons] at hfuel ⊢
    obtain ⟨fuel, rfl⟩ : ∃ n, fuel = n + 1 := ⟨fuel - 1, by omega⟩
    rw [Signature.readReference,
      bind_of_ok (hw.readComponent_of (fun ht => hw.readReference ht) (by omega))]

/-- The rest continues the class type or closes it. -/
theorem ClassTree.Body.readClassBody : ∀ {c : ClassTree} {w : List Char}, c.Body w →
    ∀ (fuel : Nat) (rest : List Char) (r : ClassTree × List Char), Stops ['.', ';'] rest →
    (∀ f, 4 * rest.length ≤ f → readMembers f c rest = .ok r) →
    4 * (w ++ rest).length ≤ fuel → Signature.readClassBody fuel (w ++ rest) = .ok r
  | _, _, .top qualified hfits hsplit hname has => by
    intro fuel rest r hstops hmembers hfuel
    have hlength : 0 < qualified.length := List.length_pos_iff.mpr hfits.1
    simp only [List.append_assoc, List.length_append] at hfuel ⊢
    obtain ⟨fuel, rfl⟩ : ∃ n, fuel = n + 1 := ⟨fuel - 1, by omega⟩
    rw [Signature.readClassBody,
      bind_of_ok (readQualifiedName_append hfits hsplit hname (has.stops hstops))]
    simp only []
    rw [bind_of_ok (has.readArguments _ _ hstops (by simp only [List.length_append]; omega))]
    exact hmembers _ (by omega)
  | _, _, .member name houter hname has => by
    intro fuel rest r hstops hmembers hfuel
    rw [List.append_assoc] at hfuel ⊢
    refine houter.readClassBody _ _ _ (.cons _ (by decide)) (fun f hf => ?_) hfuel
    have hlength : 0 < name.toList.length := List.length_pos_iff.mpr hname.1
    simp only [List.cons_append, List.append_assoc, List.length_cons, List.length_append] at hf ⊢
    obtain ⟨f, rfl⟩ : ∃ n, f = n + 1 := ⟨f - 1, by omega⟩
    rw [readMembers, bind_of_ok (identifier_append hname (has.stops hstops))]
    simp only []
    rw [bind_of_ok (has.readArguments _ _ hstops (by simp only [List.length_append]; omega)),
      String.ofList_toList]
    exact hmembers _ (by omega)

theorem ArgumentsSpell.readArguments : ∀ {as : List Argument} {w : List Char},
    ArgumentsSpell as w → ∀ (fuel : Nat) (rest : List Char), Stops ['.', ';'] rest →
    4 * (w ++ rest).length + 1 ≤ fuel → Signature.readArguments fuel (w ++ rest) = .ok (as, rest)
  | _, _, .none => by
    intro fuel rest hstops hfuel
    obtain ⟨fuel, rfl⟩ : ∃ n, fuel = n + 1 := ⟨fuel - 1, by omega⟩
    obtain ⟨c, rest, rfl, hc⟩ := hstops
    have hne : c ≠ '<' := by rintro rfl; simp at hc
    rw [List.nil_append, Signature.readArguments]
    rintro rest' ⟨⟩
    exact hne rfl
  | _, _, .some has => by
    intro fuel rest _ hfuel
    simp only [List.cons_append, List.append_assoc, List.length_cons, List.nil_append] at hfuel ⊢
    obtain ⟨fuel, rfl⟩ : ∃ n, fuel = n + 1 := ⟨fuel - 1, by omega⟩
    rw [Signature.readArguments, bind_of_ok (has.readArgumentList _ _ (by omega))]
    rfl

theorem ArgumentListSpells.readArgumentList : ∀ {as : List Argument} {w : List Char},
    ArgumentListSpells as w → ∀ (fuel : Nat) (rest : List Char),
    4 * (w ++ '>' :: rest).length + 2 ≤ fuel →
    Signature.readArgumentList fuel (w ++ '>' :: rest) = .ok (as, rest)
  | _, _, .nil => by
    intro fuel rest hfuel
    obtain ⟨fuel, rfl⟩ : ∃ n, fuel = n + 1 := ⟨fuel - 1, by omega⟩
    rfl
  | _, _, @ArgumentListSpells.cons a as v w ha has => by
    intro fuel rest hfuel
    obtain ⟨fuel, rfl⟩ : ∃ n, fuel = n + 1 := ⟨fuel - 1, by omega⟩
    obtain ⟨c, u, rfl, hc⟩ := ha.head
    have hne : c ≠ '>' := by rintro rfl; simp at hc
    simp only [List.cons_append, List.append_assoc, List.length_cons, List.length_append]
      at hfuel ⊢
    have hfirst := ha.readArgument fuel (w ++ '>' :: rest)
      (by simp only [List.cons_append, List.length_cons, List.length_append]; omega)
    rw [Signature.readArgumentList]
    · rw [List.cons_append] at hfirst
      rw [bind_of_ok hfirst]
      simp only []
      rw [bind_of_ok (has.readArgumentList _ _ (by
        simp only [List.length_cons, List.length_append]; omega))]
    · rintro rest' ⟨⟩
      exact hne rfl

theorem Argument.Spells.readArgument : ∀ {a : Argument} {w : List Char}, a.Spells w →
    ∀ (fuel : Nat) (rest : List Char), 4 * (w ++ rest).length + 1 ≤ fuel →
    Signature.readArgument fuel (w ++ rest) = .ok (a, rest)
  | _, _, .any => by
    intro fuel rest hfuel
    obtain ⟨fuel, rfl⟩ : ∃ n, fuel = n + 1 := ⟨fuel - 1, by omega⟩
    rfl
  | _, _, .exact ht hw => by
    intro fuel rest hfuel
    obtain ⟨fuel, rfl⟩ : ∃ n, fuel = n + 1 := ⟨fuel - 1, by omega⟩
    obtain ⟨c, v, heq, hc⟩ := hw.head ht
    have := hw.readReference ht fuel rest (by omega)
    rw [heq, List.cons_append] at this ⊢
    rw [(readReference_head hc).1, bind_of_ok this]
  | _, _, .upper ht hw => by
    intro fuel rest hfuel
    simp only [List.cons_append, List.length_cons] at hfuel ⊢
    obtain ⟨fuel, rfl⟩ : ∃ n, fuel = n + 1 := ⟨fuel - 1, by omega⟩
    rw [Signature.readArgument, bind_of_ok (hw.readReference ht _ _ (by omega))]
  | _, _, .lower ht hw => by
    intro fuel rest hfuel
    simp only [List.cons_append, List.length_cons] at hfuel ⊢
    obtain ⟨fuel, rfl⟩ : ∃ n, fuel = n + 1 := ⟨fuel - 1, by omega⟩
    rw [Signature.readArgument, bind_of_ok (hw.readReference ht _ _ (by omega))]

end

/-! ### What is accepted is a spelling -/

theorem of_readVariable {text rest : List Char} {t : TypeTree}
    (h : readVariable text = .ok (t, rest)) :
    ∃ w, 'T' :: text = w ++ rest ∧ t.Spells w ∧ t.isThrowable ∧ t.isReference := by
  rw [readVariable, bind_eq_ok] at h
  obtain ⟨name, rest', hname, h⟩ := h
  obtain ⟨rest'', rfl, h⟩ := expect_bind_eq_ok.mp h
  obtain ⟨rfl, hfits⟩ := of_identifier hname
  cases h
  refine ⟨'T' :: (name ++ [';']), by simp, ?_, rfl, rfl⟩
  have := TypeTree.Spells.ofVariable (String.ofList name) (by simpa using hfits)
  rwa [String.toList_ofList] at this

theorem of_readQualifiedName {text rest : List Char} {package name : String}
    (h : readQualifiedName text = .ok ((package, name), rest)) :
    ∃ q, text = q ++ rest ∧ Fits classEnds q ∧
      Name.splitLast '/' q = (package.toList, name.toList) ∧ name.toList ≠ [] := by
  rw [readQualifiedName, bind_eq_ok] at h
  obtain ⟨q, rest', hq, h⟩ := h
  obtain ⟨rfl, hfits⟩ := of_identifier hq
  simp only at h
  split at h
  case isTrue => cases h
  case isFalse hname =>
    cases h
    exact ⟨q, rfl, hfits, by simp only [String.toList_ofList], by rwa [String.toList_ofList]⟩

/-- What the reader calls on the way is read one level deeper. -/
theorem of_readComponent_of {fuel : Nat} {text rest : List Char} {t : TypeTree}
    (href : ∀ {t rest}, readReference fuel text = .ok (t, rest) →
      ∃ w, text = w ++ rest ∧ t.Spells w ∧ t.isReference)
    (h : readComponent (fuel + 1) text = .ok (t, rest)) : ∃ w, text = w ++ rest ∧ t.Spells w := by
  rw [readComponent] at h
  split at h
  case h_1 b hb =>
    cases h
    obtain ⟨c, hc, hletter⟩ := Option.bind_eq_some_iff.mp hb
    obtain ⟨rest, rfl⟩ := List.head?_eq_some_iff.mp hc
    exact ⟨[c], rfl, BaseType.letter_of_ofLetter? hletter ▸ .base b⟩
  case h_2 =>
    obtain ⟨w, hw, ht, _⟩ := href h
    exact ⟨w, hw, ht⟩

mutual

theorem of_readReference : ∀ (fuel : Nat) {text rest : List Char} {t : TypeTree},
    readReference fuel text = .ok (t, rest) → ∃ w, text = w ++ rest ∧ t.Spells w ∧ t.isReference
  | 0, _, _, _, h => by cases h
  | fuel + 1, text, rest, t, h => by
    unfold readReference at h
    split at h
    case h_1 body =>
      obtain ⟨c, rest', hc, h⟩ := bind_eq_ok.mp h
      cases h
      obtain ⟨w, rfl, hw⟩ := of_readClassBody fuel hc
      exact ⟨_, by simp, .ofClass hw, rfl⟩
    case h_2 name =>
      obtain ⟨w, hw, ht, _, href⟩ := of_readVariable h
      exact ⟨w, hw, ht, href⟩
    case h_3 component =>
      obtain ⟨t, rest', ht, h⟩ := bind_eq_ok.mp h
      cases h
      obtain ⟨w, rfl, hw⟩ := of_readComponent fuel ht
      exact ⟨_, by simp, .array hw, rfl⟩
    case h_4 => cases h
    case h_5 => cases h

theorem of_readComponent : ∀ (fuel : Nat) {text rest : List Char} {t : TypeTree},
    readComponent fuel text = .ok (t, rest) → ∃ w, text = w ++ rest ∧ t.Spells w
  | 0, _, _, _, h => by cases h
  | fuel + 1, _, _, _, h => of_readComponent_of (of_readReference fuel) h

theorem of_readClassBody : ∀ (fuel : Nat) {text rest : List Char} {c : ClassTree},
    readClassBody fuel text = .ok (c, rest) → ∃ w, text = w ++ ';' :: rest ∧ c.Body w
  | 0, _, _, _, h => by cases h
  | fuel + 1, text, rest, c, h => by
    rw [readClassBody, bind_eq_ok] at h
    obtain ⟨⟨package, name⟩, rest', hq, h⟩ := h
    obtain ⟨as, rest'', has, hmembers⟩ := bind_eq_ok.mp h
    obtain ⟨q, rfl, hfits, hsplit, hname⟩ := of_readQualifiedName hq
    obtain ⟨v, rfl, hv⟩ := of_readArguments fuel has
    rw [← List.append_assoc]
    exact of_readMembers fuel (.top q hfits hsplit hname hv) hmembers

theorem of_readMembers : ∀ (fuel : Nat) {outer : ClassTree} {v text rest : List Char}
    {c : ClassTree}, outer.Body v → readMembers fuel outer text = .ok (c, rest) →
    ∃ w, v ++ text = w ++ ';' :: rest ∧ c.Body w
  | 0, _, _, _, _, _, _, h => by cases h
  | fuel + 1, outer, v, text, rest, c, hv, h => by
    unfold readMembers at h
    split at h
    case h_1 member =>
      obtain ⟨name, rest', hname, hrest⟩ := bind_eq_ok.mp h
      obtain ⟨as, rest'', has, hmembers⟩ := bind_eq_ok.mp hrest
      obtain ⟨rfl, hfits⟩ := of_identifier hname
      obtain ⟨u, rfl, hu⟩ := of_readArguments fuel has
      have hbody := ClassTree.Body.member (String.ofList name) hv
        (by rwa [String.toList_ofList]) hu
      rw [String.toList_ofList] at hbody
      obtain ⟨w, hw, hc⟩ := of_readMembers fuel hbody hmembers
      exact ⟨w, by rw [← hw]; simp, hc⟩
    case h_2 =>
      obtain ⟨rest', rfl, h⟩ := expect_bind_eq_ok.mp h
      cases h
      exact ⟨v, rfl, hv⟩

theorem of_readArguments : ∀ (fuel : Nat) {text rest : List Char} {as : List Argument},
    readArguments fuel text = .ok (as, rest) → ∃ w, text = w ++ rest ∧ ArgumentsSpell as w
  | 0, _, _, _, h => by cases h
  | fuel + 1, text, rest, as, h => by
    unfold readArguments at h
    split at h
    case h_1 body =>
      obtain ⟨as, rest', has, h⟩ := bind_eq_ok.mp h
      obtain ⟨w, rfl, hw⟩ := of_readArgumentList fuel has
      cases as with
      | nil => cases h
      | cons a as =>
        cases h
        exact ⟨_, by simp, .some hw⟩
    case h_2 =>
      cases h
      exact ⟨[], rfl, .none⟩

theorem of_readArgumentList : ∀ (fuel : Nat) {text rest : List Char} {as : List Argument},
    readArgumentList fuel text = .ok (as, rest) →
    ∃ w, text = w ++ '>' :: rest ∧ ArgumentListSpells as w
  | 0, _, _, _, h => by cases h
  | fuel + 1, text, rest, as, h => by
    unfold readArgumentList at h
    split at h
    case h_1 =>
      cases h
      exact ⟨[], rfl, .nil⟩
    case h_2 =>
      obtain ⟨a, rest', ha, h⟩ := bind_eq_ok.mp h
      obtain ⟨as, rest'', has, h⟩ := bind_eq_ok.mp h
      cases h
      obtain ⟨v, rfl, hv⟩ := of_readArgument fuel ha
      obtain ⟨w, rfl, hw⟩ := of_readArgumentList fuel has
      exact ⟨_, by simp, .cons hv hw⟩

theorem of_readArgument : ∀ (fuel : Nat) {text rest : List Char} {a : Argument},
    readArgument fuel text = .ok (a, rest) → ∃ w, text = w ++ rest ∧ a.Spells w
  | 0, _, _, _, h => by cases h
  | fuel + 1, text, rest, a, h => by
    unfold readArgument at h
    split at h
    case h_1 =>
      cases h
      exact ⟨['*'], rfl, .any⟩
    case h_2 bound =>
      obtain ⟨t, rest', ht, h⟩ := bind_eq_ok.mp h
      cases h
      obtain ⟨w, rfl, hw, href⟩ := of_readReference fuel ht
      exact ⟨_, rfl, .upper href hw⟩
    case h_3 bound =>
      obtain ⟨t, rest', ht, h⟩ := bind_eq_ok.mp h
      cases h
      obtain ⟨w, rfl, hw, href⟩ := of_readReference fuel ht
      exact ⟨_, rfl, .lower href hw⟩
    case h_4 =>
      obtain ⟨t, rest', ht, h⟩ := bind_eq_ok.mp h
      cases h
      obtain ⟨w, rfl, hw, href⟩ := of_readReference fuel ht
      exact ⟨_, rfl, .exact href hw⟩

end

end JvmTypes.Signature
