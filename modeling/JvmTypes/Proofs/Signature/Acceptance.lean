import JvmTypes.Proofs.Signature.Reading
/-!
# Accepted signatures

A whole text is accepted as the signature of a field, a method or a class exactly if it spells the
tree that is read from it.
-/
namespace JvmTypes.Signature

theorem SpellsEach.length_cons {P : α → List Char → Prop} {a : α} {as : List α} {w : List Char}
    (hpos : ∀ {b v}, P b v → v ≠ []) (h : SpellsEach P (a :: as) w) :
    ∃ v x, w = v ++ x ∧ P a v ∧ SpellsEach P as x ∧ x.length < w.length := by
  obtain _ | ⟨ha, has⟩ := h
  refine ⟨_, _, rfl, ha, has, ?_⟩
  have := List.length_pos_iff.mpr (hpos ha)
  rw [List.length_append]
  omega

theorem SpellsEach.exists_spelling {P : α → List Char → Prop} {as : List α} {w : List Char}
    (h : SpellsEach P as w) : ∀ a ∈ as, ∃ v, P a v := by
  induction h with
  | nil => simp
  | cons ha _ ih =>
    intro b hb
    rcases List.mem_cons.mp hb with rfl | hb
    · exact ⟨_, ha⟩
    · exact ih b hb

/-! ### Types -/

theorem readReferenceType_append {t : TypeTree} {w : List Char} (h : t.SpellsReference w)
    (rest : List Char) : readReferenceType (w ++ rest) = .ok (t, rest) :=
  h.2.readReference h.1 _ _ (by rw [depthFor]; omega)

theorem readType_append {t : TypeTree} {w : List Char} (h : t.Spells w) (rest : List Char) :
    readType (w ++ rest) = .ok (t, rest) :=
  h.readComponent_of h.readReference (by rw [depthFor]; omega)

theorem readClass_append {c : ClassTree} {w : List Char} (h : c.Spells w) (rest : List Char) :
    readClass (w ++ rest) = .ok (c, rest) := by
  obtain ⟨w, hw, rfl⟩ := h
  simp only [List.cons_append, List.append_assoc, List.nil_append]
  exact hw.readClassBody _ _ _ (.cons _ (by decide)) (fun _ => readMembers_close)
    (by rw [depthFor]; omega)

theorem readThrown_append {t : TypeTree} {w : List Char} (h : t.SpellsThrown w)
    (rest : List Char) : readThrown (w ++ rest) = .ok (t, rest) := by
  obtain ⟨ht, hw⟩ := h
  cases hw with
  | base | array => cases ht
  | ofVariable name hname =>
    simp only [List.cons_append, List.append_assoc, List.nil_append]
    exact readVariable_append hname rest
  | ofClass hw =>
    rw [List.cons_append, readThrown]
    · rw [← List.cons_append, bind_of_ok (readClass_append ⟨_, hw, rfl⟩ rest)]
    · rintro rest' ⟨⟩

theorem of_readReferenceType {text rest : List Char} {t : TypeTree}
    (h : readReferenceType text = .ok (t, rest)) : ∃ w, text = w ++ rest ∧ t.SpellsReference w := by
  obtain ⟨w, hw, ht, href⟩ := of_readReference _ h
  exact ⟨w, hw, href, ht⟩

theorem of_readType {text rest : List Char} {t : TypeTree}
    (h : readType text = .ok (t, rest)) : ∃ w, text = w ++ rest ∧ t.Spells w :=
  of_readComponent _ h

theorem of_readClass {text rest : List Char} {c : ClassTree}
    (h : readClass text = .ok (c, rest)) : ∃ w, text = w ++ rest ∧ c.Spells w := by
  obtain ⟨body, rfl, h⟩ := expect_bind_eq_ok.mp h
  obtain ⟨w, rfl, hw⟩ := of_readClassBody _ h
  exact ⟨_, by simp, w, hw, rfl⟩

theorem of_readThrown {text rest : List Char} {t : TypeTree}
    (h : readThrown text = .ok (t, rest)) : ∃ w, text = w ++ rest ∧ t.SpellsThrown w := by
  unfold readThrown at h
  split at h
  case h_1 =>
    obtain ⟨w, hw, ht, hthrown, _⟩ := of_readVariable h
    exact ⟨w, hw, hthrown, ht⟩
  case h_2 =>
    obtain ⟨c, rest', hc, h⟩ := bind_eq_ok.mp h
    cases h
    obtain ⟨w, hw, v, hv, rfl⟩ := of_readClass hc
    exact ⟨_, hw, rfl, .ofClass hv⟩

/-! ### Type parameters -/

theorem Marked.ne_nil {mark : Char} {P : α → List Char → Prop} {a : α} {w : List Char}
    (h : Marked mark P a w) : w ≠ [] := by
  obtain ⟨v, _, rfl⟩ := h
  exact List.cons_ne_nil _ _

theorem readInterfaceBounds_append : ∀ {bs : List TypeTree} {w rest : List Char} {fuel : Nat},
    SpellsEach (Marked ':' TypeTree.SpellsReference) bs w → rest.head? ≠ some ':' →
    w.length < fuel → readInterfaceBounds fuel (w ++ rest) = .ok (bs, rest)
  | [], w, rest, fuel, h, hrest, hfuel => by
    cases h
    rw [List.nil_append, readInterfaceBounds]
    rintro n rest' _ rfl
    exact hrest rfl
  | b :: bs, w, rest, fuel, h, hrest, hfuel => by
    obtain ⟨v, x, rfl, ⟨v, hb, rfl⟩, hbs, hlength⟩ := h.length_cons Marked.ne_nil
    obtain ⟨fuel, rfl⟩ : ∃ n, fuel = n + 1 := ⟨fuel - 1, by omega⟩
    rw [List.append_assoc, List.cons_append, readInterfaceBounds,
      bind_of_ok (readReferenceType_append hb _)]
    simp only []
    rw [bind_of_ok (readInterfaceBounds_append hbs hrest (by omega))]

theorem readClassBound_append {b : Option TypeTree} {w rest : List Char}
    (h : SpellsMaybe TypeTree.SpellsReference b w)
    (hrest : b = none → rest.head? = some ':' ∨ rest.head? = some '>') :
    readClassBound (w ++ rest) = .ok (b, rest) := by
  cases h with
  | none =>
    rcases hrest rfl with h | h <;> obtain ⟨rest, rfl⟩ := List.head?_eq_some_iff.mp h <;> rfl
  | some hb =>
    obtain ⟨c, v, rfl, hc⟩ := hb.2.head hb.1
    rw [List.cons_append, readClassBound]
    · rw [← List.cons_append, bind_of_ok (readReferenceType_append hb rest)]
    · rintro rest' ⟨⟩; simp at hc
    · rintro rest' ⟨⟩; simp at hc

/-- Without bounds the parameter has to be the last one. -/
theorem readTypeParameter_append {p : TypeParameter} {w rest : List Char} (h : p.Spells w)
    (hrest : rest.head? ≠ some ':') (hlast : p.bounds = [] → rest.head? = some '>') :
    readTypeParameter (w ++ rest) = .ok (p, rest) := by
  obtain ⟨name, classBound, interfaceBounds⟩ := p
  obtain ⟨v, x, hname, hclass, hinterfaces, rfl⟩ := h
  have hnext : classBound = none → (x ++ rest).head? = some ':' ∨ (x ++ rest).head? = some '>' := by
    rintro rfl
    cases hinterfaces with
    | nil => exact .inr (hlast rfl)
    | cons hb => obtain ⟨u, _, rfl⟩ := hb; exact .inl rfl
  rw [List.append_assoc, List.cons_append, List.append_assoc, readTypeParameter,
    bind_of_ok (identifier_append hname (.cons _ (by decide)))]
  simp only [expect, if_pos]
  rw [bind_of_ok rfl, bind_of_ok (readClassBound_append hclass hnext)]
  simp only []
  rw [bind_of_ok (readInterfaceBounds_append hinterfaces hrest
    (by simp only [List.length_append]; omega))]
  simp only [String.ofList_toList]

theorem TypeParameter.Spells.head {p : TypeParameter} {w : List Char} (h : p.Spells w) :
    ∃ c v, w = c :: v ∧ c ∉ parameterEnds := by
  obtain ⟨v, x, ⟨hne, hfits⟩, _, _, rfl⟩ := h
  obtain ⟨c, name, hname⟩ := List.exists_cons_of_ne_nil hne
  exact ⟨c, _, by rw [hname]; rfl, hfits c (hname ▸ List.mem_cons_self ..)⟩

theorem readTypeParameterList_append : ∀ {ps : List TypeParameter} {w rest : List Char}
    {fuel : Nat}, SpellsEach TypeParameter.Spells ps w → Bounded ps → w.length < fuel →
    readTypeParameterList fuel (w ++ '>' :: rest) = .ok (ps, rest)
  | [], w, rest, fuel, h, hbounded, hfuel => by
    cases h
    obtain ⟨fuel, rfl⟩ : ∃ n, fuel = n + 1 := ⟨fuel - 1, by omega⟩
    rfl
  | p :: ps, w, rest, fuel, h, hbounded, hfuel => by
    have hpos : ∀ {q : TypeParameter} {v : List Char}, q.Spells v → v ≠ [] := by
      intro q v hq
      obtain ⟨c, v, rfl, _⟩ := hq.head
      exact List.cons_ne_nil _ _
    obtain ⟨v, x, rfl, hp, hps, hlength⟩ := h.length_cons hpos
    obtain ⟨fuel, rfl⟩ : ∃ n, fuel = n + 1 := ⟨fuel - 1, by omega⟩
    obtain ⟨c, u, rfl, hc⟩ := hp.head
    have hnext : (x ++ '>' :: rest).head? ≠ some ':' ∧
        (p.bounds = [] → (x ++ '>' :: rest).head? = some '>') := by
      cases hps with
      | nil => exact ⟨by simp, fun _ => rfl⟩
      | cons hq =>
        obtain ⟨d, y, rfl, hd⟩ := hq.head
        refine ⟨?_, fun hnone => absurd hnone (hbounded p (List.mem_cons_self ..))⟩
        rintro ⟨⟩
        exact hd (by decide)
    have hread := readTypeParameter_append hp hnext.1 hnext.2
    have hbounded' : Bounded ps := by
      intro q hq
      cases ps with
      | nil => cases hq
      | cons => exact hbounded q (List.mem_cons_of_mem _ hq)
    rw [List.append_assoc, List.cons_append] at *
    rw [readTypeParameterList]
    · rw [bind_of_ok hread]
      simp only []
      rw [bind_of_ok (readTypeParameterList_append hps hbounded' (by omega))]
    · rintro rest' ⟨⟩
      exact hc (by decide)

theorem readTypeParameters_append {ps : List TypeParameter} {w rest : List Char}
    (h : TypeParametersSpell ps w) (hrest : rest.head? ≠ some '<') :
    readTypeParameters (w ++ rest) = .ok (ps, rest) := by
  cases h with
  | none =>
    rw [List.nil_append, readTypeParameters]
    rintro rest' rfl
    exact hrest rfl
  | some hbounded hps =>
    simp only [List.cons_append, List.append_assoc, List.nil_append, readTypeParameters]
    rw [bind_of_ok (readTypeParameterList_append hps hbounded
      (by simp only [List.length_append, List.length_cons]; omega))]
    rfl

theorem of_readInterfaceBounds : ∀ (fuel : Nat) {text rest : List Char} {bs : List TypeTree},
    readInterfaceBounds fuel text = .ok (bs, rest) →
    ∃ w, text = w ++ rest ∧ SpellsEach (Marked ':' TypeTree.SpellsReference) bs w
  | 0, text, rest, bs, h => by
    cases h
    exact ⟨[], rfl, .nil⟩
  | fuel + 1, text, rest, bs, h => by
    unfold readInterfaceBounds at h
    split at h
    case h_1 n rest' heq =>
      cases heq
      obtain ⟨b, rest₁, hb, h⟩ := bind_eq_ok.mp h
      obtain ⟨bs, rest₂, hbs, h⟩ := bind_eq_ok.mp h
      cases h
      obtain ⟨v, rfl, hv⟩ := of_readReferenceType hb
      obtain ⟨w, rfl, hw⟩ := of_readInterfaceBounds fuel hbs
      exact ⟨_, by simp, .cons ⟨v, hv, rfl⟩ hw⟩
    case h_2 =>
      cases h
      exact ⟨[], rfl, .nil⟩

theorem of_readClassBound {text rest : List Char} {b : Option TypeTree}
    (h : readClassBound text = .ok (b, rest)) :
    ∃ w, text = w ++ rest ∧ SpellsMaybe TypeTree.SpellsReference b w ∧
      (b = none → rest.head? = some ':' ∨ rest.head? = some '>') := by
  unfold readClassBound at h
  split at h
  case h_1 =>
    cases h
    exact ⟨[], rfl, .none, fun _ => .inl rfl⟩
  case h_2 =>
    cases h
    exact ⟨[], rfl, .none, fun _ => .inr rfl⟩
  case h_3 =>
    obtain ⟨b, rest', hb, h⟩ := bind_eq_ok.mp h
    cases h
    obtain ⟨w, hw, hspells⟩ := of_readReferenceType hb
    exact ⟨w, hw, .some hspells, by rintro ⟨⟩⟩

theorem of_readTypeParameter {text rest : List Char} {p : TypeParameter}
    (h : readTypeParameter text = .ok (p, rest)) :
    ∃ w, text = w ++ rest ∧ p.Spells w ∧ (p.bounds = [] → rest.head? = some '>') := by
  rw [readTypeParameter, bind_eq_ok] at h
  obtain ⟨name, rest₁, hname, h⟩ := h
  obtain ⟨rest₂, rfl, h⟩ := expect_bind_eq_ok.mp h
  obtain ⟨classBound, rest₃, hclass, h⟩ := bind_eq_ok.mp h
  obtain ⟨bs, rest₄, hbs, h⟩ := bind_eq_ok.mp h
  cases h
  obtain ⟨rfl, hfits⟩ := of_identifier hname
  obtain ⟨v, rfl, hv, hnext⟩ := of_readClassBound hclass
  obtain ⟨x, rfl, hx⟩ := of_readInterfaceBounds _ hbs
  refine ⟨name ++ ':' :: (v ++ x), by simp, ⟨v, x, ?_, hv, hx, by rw [String.toList_ofList]⟩, ?_⟩
  · rwa [String.toList_ofList]
  · intro hnone
    obtain ⟨hnoclass, rfl⟩ := List.append_eq_nil_iff.mp hnone
    cases hx
    rcases hnext (by simpa using hnoclass) with hcolon | hclose
    · -- a colon that is left would have been read as an interface bound
      obtain ⟨rest, rfl⟩ := List.head?_eq_some_iff.mp hcolon
      obtain ⟨b, rest₅, _, hbs⟩ := bind_eq_ok.mp hbs
      obtain ⟨bs, rest₆, _, hbs⟩ := bind_eq_ok.mp hbs
      cases hbs
    · exact hclose

theorem of_readTypeParameterList : ∀ (fuel : Nat) {text rest : List Char}
    {ps : List TypeParameter}, readTypeParameterList fuel text = .ok (ps, rest) →
    ∃ w, text = w ++ '>' :: rest ∧ SpellsEach TypeParameter.Spells ps w ∧ Bounded ps
  | 0, text, rest, ps, h => by cases h
  | fuel + 1, text, rest, ps, h => by
    unfold readTypeParameterList at h
    split at h
    case h_1 => cases h
    case h_2 heq =>
      cases heq
      cases h
      exact ⟨[], rfl, .nil, by rintro p ⟨⟩⟩
    case h_3 heq _ =>
      cases heq
      obtain ⟨p, rest₁, hp, h⟩ := bind_eq_ok.mp h
      obtain ⟨ps, rest₂, hps, h⟩ := bind_eq_ok.mp h
      cases h
      obtain ⟨v, rfl, hv, hlast⟩ := of_readTypeParameter hp
      obtain ⟨w, rfl, hw, hbounded⟩ := of_readTypeParameterList fuel hps
      refine ⟨v ++ w, by simp, .cons hv hw, ?_⟩
      cases hw with
      | nil => rintro q ⟨⟩
      | cons hq =>
        rintro q (_ | ⟨_, hmem⟩)
        · intro hnone
          obtain ⟨c, x, rfl, hc⟩ := hq.head
          cases hlast hnone
          exact hc (by decide)
        · exact hbounded q hmem

theorem of_readTypeParameters {text rest : List Char} {ps : List TypeParameter}
    (h : readTypeParameters text = .ok (ps, rest)) :
    ∃ w, text = w ++ rest ∧ TypeParametersSpell ps w := by
  unfold readTypeParameters at h
  split at h
  case h_1 =>
    obtain ⟨ps, rest', hps, h⟩ := bind_eq_ok.mp h
    obtain ⟨w, rfl, hw, hbounded⟩ := of_readTypeParameterList _ hps
    cases ps with
    | nil => cases h
    | cons p ps =>
      cases h
      exact ⟨_, by simp, .some hbounded hw⟩
  case h_2 =>
    cases h
    exact ⟨[], rfl, .none⟩

/-! ### Lists of types -/

theorem TypeTree.Spells.ne_nil {t : TypeTree} {w : List Char} (h : t.Spells w) : w ≠ [] := by
  cases h <;> exact List.cons_ne_nil _ _

theorem ClassTree.Spells.ne_nil {c : ClassTree} {w : List Char} (h : c.Spells w) : w ≠ [] := by
  obtain ⟨v, _, rfl⟩ := h
  exact List.cons_ne_nil _ _

theorem TypeTree.Spells.head_ne {t : TypeTree} {w : List Char} (h : t.Spells w) :
    ∃ c v, w = c :: v ∧ c ≠ ')' ∧ c ≠ 'V' := by
  cases h with
  | base b => exact ⟨_, _, rfl, by cases b <;> decide, by cases b <;> decide⟩
  | ofClass | ofVariable | array => exact ⟨_, _, rfl, by decide, by decide⟩

theorem readParameters_append : ∀ {ts : List TypeTree} {w rest : List Char} {fuel : Nat},
    SpellsEach TypeTree.Spells ts w → w.length < fuel →
    readParameters fuel (w ++ ')' :: rest) = .ok (ts, rest)
  | [], w, rest, fuel, h, hfuel => by
    cases h
    obtain ⟨fuel, rfl⟩ : ∃ n, fuel = n + 1 := ⟨fuel - 1, by omega⟩
    rfl
  | t :: ts, w, rest, fuel, h, hfuel => by
    obtain ⟨v, x, rfl, ht, hts, hlength⟩ := h.length_cons TypeTree.Spells.ne_nil
    obtain ⟨fuel, rfl⟩ : ∃ n, fuel = n + 1 := ⟨fuel - 1, by omega⟩
    have hread := readType_append ht (x ++ ')' :: rest)
    obtain ⟨c, u, rfl, hc, _⟩ := ht.head_ne
    rw [List.append_assoc, List.cons_append] at *
    rw [readParameters]
    · rw [bind_of_ok hread]
      simp only []
      rw [bind_of_ok (readParameters_append hts (by omega))]
    · rintro rest' ⟨⟩
      exact hc rfl

theorem readReturn_append {t : Option TypeTree} {w : List Char} (h : ReturnSpells t w)
    (rest : List Char) : readReturn (w ++ rest) = .ok (t, rest) := by
  cases h with
  | void => rfl
  | type ht =>
    have hread := readType_append ht rest
    obtain ⟨c, u, rfl, _, hc⟩ := ht.head_ne
    rw [List.cons_append] at *
    rw [readReturn]
    · rw [bind_of_ok hread]
    · rintro rest' ⟨⟩
      exact hc rfl

theorem readThrows_eq : ∀ {ts : List TypeTree} {w : List Char} {fuel : Nat},
    SpellsEach (Marked '^' TypeTree.SpellsThrown) ts w → w.length < fuel →
    readThrows fuel w = .ok (ts, [])
  | [], w, fuel, h, hfuel => by
    cases h
    rw [readThrows]
    rintro n rest' _ ⟨⟩
  | t :: ts, w, fuel, h, hfuel => by
    obtain ⟨v, x, rfl, ⟨v, ht, rfl⟩, hts, hlength⟩ := h.length_cons Marked.ne_nil
    obtain ⟨fuel, rfl⟩ : ∃ n, fuel = n + 1 := ⟨fuel - 1, by omega⟩
    rw [List.cons_append, readThrows, bind_of_ok (readThrown_append ht _)]
    simp only []
    rw [bind_of_ok (readThrows_eq hts (by omega))]

theorem readClasses_eq : ∀ {cs : List ClassTree} {w : List Char} {fuel : Nat},
    SpellsEach ClassTree.Spells cs w → w.length < fuel → readClasses fuel w = .ok (cs, [])
  | [], w, fuel, h, hfuel => by
    cases h
    rw [readClasses]
    rintro n c rest' _ ⟨⟩
  | c :: cs, w, fuel, h, hfuel => by
    obtain ⟨v, x, rfl, hc, hcs, hlength⟩ := h.length_cons ClassTree.Spells.ne_nil
    obtain ⟨fuel, rfl⟩ : ∃ n, fuel = n + 1 := ⟨fuel - 1, by omega⟩
    have hread := readClass_append hc x
    obtain ⟨d, u, rfl⟩ := List.exists_cons_of_ne_nil hc.ne_nil
    rw [List.cons_append] at *
    rw [readClasses, bind_of_ok hread]
    simp only []
    rw [bind_of_ok (readClasses_eq hcs (by omega))]

theorem of_readParameters : ∀ (fuel : Nat) {text rest : List Char} {ts : List TypeTree},
    readParameters fuel text = .ok (ts, rest) →
    ∃ w, text = w ++ ')' :: rest ∧ SpellsEach TypeTree.Spells ts w
  | 0, text, rest, ts, h => by cases h
  | fuel + 1, text, rest, ts, h => by
    unfold readParameters at h
    split at h
    case h_1 => cases h
    case h_2 heq =>
      cases heq
      cases h
      exact ⟨[], rfl, .nil⟩
    case h_3 heq _ =>
      cases heq
      obtain ⟨t, rest₁, ht, h⟩ := bind_eq_ok.mp h
      obtain ⟨ts, rest₂, hts, h⟩ := bind_eq_ok.mp h
      cases h
      obtain ⟨v, rfl, hv⟩ := of_readType ht
      obtain ⟨w, rfl, hw⟩ := of_readParameters fuel hts
      exact ⟨_, by simp, .cons hv hw⟩

theorem of_readReturn {text rest : List Char} {t : Option TypeTree}
    (h : readReturn text = .ok (t, rest)) : ∃ w, text = w ++ rest ∧ ReturnSpells t w := by
  unfold readReturn at h
  split at h
  case h_1 =>
    cases h
    exact ⟨['V'], rfl, .void⟩
  case h_2 =>
    obtain ⟨t, rest', ht, h⟩ := bind_eq_ok.mp h
    cases h
    obtain ⟨w, hw, hspells⟩ := of_readType ht
    exact ⟨w, hw, .type hspells⟩

theorem of_readThrows : ∀ (fuel : Nat) {text rest : List Char} {ts : List TypeTree},
    readThrows fuel text = .ok (ts, rest) →
    ∃ w, text = w ++ rest ∧ SpellsEach (Marked '^' TypeTree.SpellsThrown) ts w
  | 0, text, rest, ts, h => by
    cases h
    exact ⟨[], rfl, .nil⟩
  | fuel + 1, text, rest, ts, h => by
    unfold readThrows at h
    split at h
    case h_1 n rest' heq =>
      cases heq
      obtain ⟨t, rest₁, ht, h⟩ := bind_eq_ok.mp h
      obtain ⟨ts, rest₂, hts, h⟩ := bind_eq_ok.mp h
      cases h
      obtain ⟨v, rfl, hv⟩ := of_readThrown ht
      obtain ⟨w, rfl, hw⟩ := of_readThrows fuel hts
      exact ⟨_, by simp, .cons ⟨v, hv, rfl⟩ hw⟩
    case h_2 =>
      cases h
      exact ⟨[], rfl, .nil⟩

theorem of_readClasses : ∀ (fuel : Nat) {text rest : List Char} {cs : List ClassTree},
    readClasses fuel text = .ok (cs, rest) →
    ∃ w, text = w ++ rest ∧ SpellsEach ClassTree.Spells cs w
  | 0, text, rest, cs, h => by
    cases h
    exact ⟨[], rfl, .nil⟩
  | fuel + 1, text, rest, cs, h => by
    unfold readClasses at h
    split at h
    case h_1 n c text' heq =>
      cases heq
      obtain ⟨c, rest₁, hc, h⟩ := bind_eq_ok.mp h
      obtain ⟨cs, rest₂, hcs, h⟩ := bind_eq_ok.mp h
      cases h
      obtain ⟨v, hv, hspells⟩ := of_readClass hc
      obtain ⟨w, rfl, hw⟩ := of_readClasses fuel hcs
      exact ⟨v ++ w, by rw [hv, List.append_assoc], .cons hspells hw⟩
    case h_2 =>
      cases h
      exact ⟨[], rfl, .nil⟩

/-! ### Whole signatures -/

theorem whole_eq_ok {reader : List Char → Except Reason (α × List Char)} {text : String} {a : α} :
    whole reader text = .ok a ↔ reader text.toList = .ok (a, []) := by
  unfold whole
  split
  case h_1 heq => rw [heq]; simp
  case h_2 heq => rw [heq]; simp
  case h_3 heq => rw [heq]; simp

theorem TypeTree.parse_eq_ok {text : String} {t : TypeTree} :
    TypeTree.parse text = .ok t ↔ t.SpellsReference text.toList := by
  rw [TypeTree.parse, whole_eq_ok]
  constructor
  · intro h
    obtain ⟨w, hw, hspells⟩ := of_readReferenceType h
    rwa [hw, List.append_nil]
  · intro h
    have := readReferenceType_append h []
    rwa [List.append_nil] at this

theorem readClassSignature_eq_ok {text : List Char} {s : ClassSignature} :
    readClassSignature text = .ok (s, []) ↔ s.Spells text := by
  constructor
  · intro h
    rw [readClassSignature, bind_eq_ok] at h
    obtain ⟨ps, rest₁, hps, h⟩ := h
    obtain ⟨c, rest₂, hc, h⟩ := bind_eq_ok.mp h
    obtain ⟨cs, rest₃, hcs, h⟩ := bind_eq_ok.mp h
    cases h
    obtain ⟨u, rfl, hu⟩ := of_readTypeParameters hps
    obtain ⟨v, rfl, hv⟩ := of_readClass hc
    obtain ⟨x, rfl, hx⟩ := of_readClasses _ hcs
    exact ⟨u, v, x, hu, hv, hx, by rw [List.append_nil]⟩
  · rintro ⟨u, v, x, hu, hv, hx, rfl⟩
    have hhead : (v ++ x).head? ≠ some '<' := by
      obtain ⟨w, _, rfl⟩ := hv
      rintro ⟨⟩
    rw [readClassSignature, bind_of_ok (readTypeParameters_append hu hhead)]
    simp only []
    rw [bind_of_ok (readClass_append hv x)]
    simp only []
    rw [bind_of_ok (readClasses_eq hx (Nat.lt_succ_self _))]

theorem ClassSignature.parse_eq_ok {text : String} {s : ClassSignature} :
    ClassSignature.parse text = .ok s ↔ s.Spells text.toList :=
  whole_eq_ok.trans readClassSignature_eq_ok

theorem readMethodSignature_eq_ok {text : List Char} {s : MethodSignature} :
    readMethodSignature text = .ok (s, []) ↔ s.Spells text := by
  constructor
  · intro h
    rw [readMethodSignature, bind_eq_ok] at h
    obtain ⟨ps, rest₁, hps, h⟩ := h
    obtain ⟨rest₂, rfl, h⟩ := expect_bind_eq_ok.mp h
    obtain ⟨ts, rest₃, hts, h⟩ := bind_eq_ok.mp h
    obtain ⟨r, rest₄, hr, h⟩ := bind_eq_ok.mp h
    obtain ⟨thrown, rest₅, hthrown, h⟩ := bind_eq_ok.mp h
    cases h
    obtain ⟨u, rfl, hu⟩ := of_readTypeParameters hps
    obtain ⟨v, rfl, hv⟩ := of_readParameters _ hts
    obtain ⟨w, rfl, hw⟩ := of_readReturn hr
    obtain ⟨x, rfl, hx⟩ := of_readThrows _ hthrown
    exact ⟨u, v, w, x, hu, hv, hw, hx, by rw [List.append_nil]⟩
  · rintro ⟨u, v, w, x, hu, hv, hw, hx, rfl⟩
    rw [readMethodSignature, bind_of_ok (readTypeParameters_append hu (by rintro ⟨⟩))]
    simp only [expect, if_pos]
    rw [bind_of_ok rfl, bind_of_ok (readParameters_append hv
      (by simp only [List.length_append, List.length_cons]; omega))]
    simp only []
    rw [bind_of_ok (readReturn_append hw x)]
    simp only []
    rw [bind_of_ok (readThrows_eq hx (Nat.lt_succ_self _))]

theorem MethodSignature.parse_eq_ok {text : String} {s : MethodSignature} :
    MethodSignature.parse text = .ok s ↔ s.Spells text.toList :=
  whole_eq_ok.trans readMethodSignature_eq_ok

end JvmTypes.Signature
