import JvmTypes.Proofs.Signature.Acceptance
/-!
# Writing what was read

A class of the default package may be written with a slash in front of its name; the reader drops
it. Every other character of an accepted text is written again.
-/
namespace JvmTypes.Signature

/-- The second text is the first one without a slash that stands behind an `L`. -/
def DropsSlash (w w' : List Char) : Prop :=
  ∃ front back, w = front ++ 'L' :: '/' :: back ∧ w' = front ++ 'L' :: back

theorem DropsSlash.length_lt {w w' : List Char} (h : DropsSlash w w') : w'.length < w.length := by
  obtain ⟨front, back, rfl, rfl⟩ := h
  simp

theorem DropsSlash.around {w w' : List Char} (h : DropsSlash w w') (u v : List Char) :
    DropsSlash (u ++ (w ++ v)) (u ++ (w' ++ v)) := by
  obtain ⟨front, back, rfl, rfl⟩ := h
  exact ⟨u ++ front, back ++ v, by simp, by simp⟩

/-- A spelling is the written text, or it has a slash too much: without it, it is still one. -/
def Tidy (P : List Char → Prop) (written w : List Char) : Prop :=
  P w ∧ (w = written ∨ ∃ w', DropsSlash w w' ∧ P w')

variable {P Q R : List Char → Prop} {s t v w : List Char}

theorem Tidy.exact (h : P w) : Tidy P w w := ⟨h, .inl rfl⟩

theorem Tidy.around (h : Tidy P t w) (front back : List Char)
    (hQ : ∀ x, P x → Q (front ++ (x ++ back))) :
    Tidy Q (front ++ (t ++ back)) (front ++ (w ++ back)) := by
  obtain ⟨hw, rfl | ⟨w', hdrop, hw'⟩⟩ := h
  · exact .exact (hQ _ hw)
  · exact ⟨hQ _ hw, .inr ⟨_, hdrop.around front back, hQ w' hw'⟩⟩

theorem Tidy.append (hv : Tidy P s v) (hw : Tidy Q t w)
    (hR : ∀ x y, P x → Q y → R (x ++ y)) : Tidy R (s ++ t) (v ++ w) := by
  obtain ⟨hPv, rfl | ⟨v', hdrop, hv'⟩⟩ := hv
  · simpa using hw.around v [] fun x hx => by simpa using hR v x hPv hx
  · refine ⟨hR v w hPv hw.1, .inr ⟨v' ++ w, ?_, hR v' w hv' hw.1⟩⟩
    simpa using hdrop.around [] w

theorem Tidy.cons (c : Char) (h : Tidy P t w) (hQ : ∀ x, P x → Q (c :: x)) :
    Tidy Q (c :: t) (c :: w) := by
  simpa using h.around [c] [] (Q := Q) fun x hx => by simpa using hQ x hx

theorem Tidy.imp (h : Tidy P t w) (hQ : ∀ x, P x → Q x) : Tidy Q t w := by
  obtain ⟨hw, rfl | ⟨w', hdrop, hw'⟩⟩ := h
  · exact .exact (hQ _ hw)
  · exact ⟨hQ _ hw, .inr ⟨w', hdrop, hQ w' hw'⟩⟩

/-! ### Types -/

def ClassTree.SpellsOpen (c : ClassTree) (w : List Char) : Prop := ∃ v, c.Body v ∧ w = 'L' :: v

/-- The only split that is not undone is the one behind a leading slash. -/
theorem tidy_qualified {package name : String} {q : List Char} (hfits : Fits classEnds q)
    (hsplit : Name.splitLast '/' q = (package.toList, name.toList)) (hname : name.toList ≠ []) :
    Tidy (fun w => ∃ q, w = 'L' :: q ∧ Fits classEnds q ∧
        Name.splitLast '/' q = (package.toList, name.toList) ∧ name.toList ≠ [])
      ('L' :: ((if package.toList = [] then [] else package.toList ++ ['/']) ++ name.toList))
      ('L' :: q) := by
  refine ⟨⟨q, rfl, hfits, hsplit, hname⟩, ?_⟩
  obtain ⟨hslash, ⟨hpackage, hq⟩ | hq⟩ := Name.splitLast_cases hsplit
  · exact .inl (by rw [if_pos hpackage, hq, List.nil_append])
  · by_cases hpackage : package.toList = []
    · refine .inr ⟨'L' :: name.toList, ⟨[], name.toList, ?_, rfl⟩, name.toList, rfl, ?_, ?_, hname⟩
      · rw [hq, hpackage]; rfl
      · exact ⟨hname, fun c hc => hfits.2 c (by rw [hq]; simp [hc])⟩
      · rw [hpackage]; exact Name.splitLast_of_not_mem hslash
    · exact .inl (by rw [if_neg hpackage, hq]; simp)

mutual

theorem TypeTree.Spells.tidy : ∀ {t : TypeTree} {w : List Char}, t.Spells w →
    Tidy t.Spells t.write w
  | _, _, .base b => .exact (.base b)
  | .classType c, _, .ofClass hc => by
    refine hc.tidy.around [] [';'] (Q := TypeTree.Spells (.classType c)) ?_
    rintro x ⟨v, hv, rfl⟩
    exact .ofClass hv
  | _, _, .ofVariable name hname => .exact (.ofVariable name hname)
  | _, _, .array ht => ht.tidy.cons '[' fun _ => .array

theorem ClassTree.Body.tidy : ∀ {c : ClassTree} {w : List Char}, c.Body w →
    Tidy c.SpellsOpen c.writeOpen ('L' :: w)
  | _, _, @ClassTree.Body.top package name as w q hfits hsplit hname has => by
    rw [ClassTree.writeOpen_top, ← List.cons_append, ← List.cons_append]
    refine (tidy_qualified hfits hsplit hname).append has.tidy ?_
    rintro x y ⟨q, rfl, hfits, hsplit, hname⟩ hy
    exact ⟨_, .top q hfits hsplit hname hy, rfl⟩
  | _, _, @ClassTree.Body.member outer as v w name houter hname has => by
    rw [ClassTree.writeOpen, ← List.cons_append]
    refine houter.tidy.append (Q := fun y => ∃ z, ArgumentsSpell as z ∧
      y = '.' :: (name.toList ++ z)) ?_ ?_
    · simpa using has.tidy.around ('.' :: name.toList) [] (Q := fun y => ∃ z,
        ArgumentsSpell as z ∧ y = '.' :: (name.toList ++ z)) fun x hx => ⟨x, hx, by simp⟩
    · rintro x y ⟨v, hv, rfl⟩ ⟨z, hz, rfl⟩
      exact ⟨_, .member name hv hname hz, rfl⟩

theorem ArgumentsSpell.tidy : ∀ {as : List Argument} {w : List Char}, ArgumentsSpell as w →
    Tidy (ArgumentsSpell as) (writeArguments as) w
  | _, _, .none => .exact .none
  | a :: as, _, .some has =>
    has.tidy.around ['<'] ['>'] (Q := ArgumentsSpell (a :: as)) fun _ => .some

theorem ArgumentListSpells.tidy : ∀ {as : List Argument} {w : List Char},
    ArgumentListSpells as w → Tidy (ArgumentListSpells as) (writeRest as) w
  | _, _, .nil => .exact .nil
  | _, _, .cons ha has => ha.tidy.append has.tidy fun _ _ => .cons

theorem Argument.Spells.tidy : ∀ {a : Argument} {w : List Char}, a.Spells w →
    Tidy a.Spells a.write w
  | _, _, .any => .exact .any
  | _, _, .exact href ht => ht.tidy.imp fun _ => .exact href
  | _, _, .upper href ht => ht.tidy.cons '+' fun _ => .upper href
  | _, _, .lower href ht => ht.tidy.cons '-' fun _ => .lower href

end

theorem ClassTree.Spells.tidy {c : ClassTree} (h : c.Spells w) : Tidy c.Spells c.write w := by
  obtain ⟨v, hv, rfl⟩ := h
  refine hv.tidy.around [] [';'] (Q := c.Spells) ?_
  rintro x ⟨u, hu, rfl⟩
  exact ⟨u, hu, rfl⟩

theorem TypeTree.SpellsReference.tidy {t : TypeTree} (h : t.SpellsReference w) :
    Tidy t.SpellsReference t.write w :=
  h.2.tidy.imp fun _ hx => ⟨h.1, hx⟩

theorem TypeTree.SpellsThrown.tidy {t : TypeTree} (h : t.SpellsThrown w) :
    Tidy t.SpellsThrown t.write w :=
  h.2.tidy.imp fun _ hx => ⟨h.1, hx⟩

/-! ### Whole signatures -/

def Then (P Q : List Char → Prop) (w : List Char) : Prop := ∃ u v, P u ∧ Q v ∧ w = u ++ v

theorem Tidy.andThen (hv : Tidy P s v) (hw : Tidy Q t w) : Tidy (Then P Q) (s ++ t) (v ++ w) :=
  hv.append hw fun x y hx hy => ⟨x, y, hx, hy, rfl⟩

theorem SpellsEach.tidy {P : α → List Char → Prop} {write : α → List Char}
    (hP : ∀ a w, P a w → Tidy (P a) (write a) w) :
    ∀ {as : List α} {w : List Char}, SpellsEach P as w →
      Tidy (SpellsEach P as) (as.flatMap write) w
  | _, _, .nil => .exact .nil
  | _, _, .cons ha has => by
    rw [List.flatMap_cons]
    exact (hP _ _ ha).append (has.tidy hP) fun _ _ => .cons

theorem Marked.tidy {P : α → List Char → Prop} {write : α → List Char}
    (hP : ∀ a w, P a w → Tidy (P a) (write a) w) (mark : Char) (a : α) (w : List Char)
    (h : Marked mark P a w) : Tidy (Marked mark P a) (mark :: write a) w := by
  obtain ⟨v, hv, rfl⟩ := h
  exact (hP a v hv).cons mark fun x hx => ⟨x, hx, rfl⟩

theorem SpellsMaybe.tidy {b : Option TypeTree} (h : SpellsMaybe TypeTree.SpellsReference b w) :
    Tidy (SpellsMaybe TypeTree.SpellsReference b) ((b.map TypeTree.write).getD []) w := by
  cases h with
  | none => exact .exact .none
  | some hb => exact hb.tidy.imp fun _ => .some

theorem TypeParameter.Spells.tidy {p : TypeParameter} (h : p.Spells w) :
    Tidy p.Spells p.write w := by
  obtain ⟨v, x, hname, hclass, hinterfaces, rfl⟩ := h
  have hbounds := hclass.tidy.andThen (hinterfaces.tidy (Marked.tidy
    (fun _ _ h => h.tidy) ':'))
  have hrest := hbounds.cons ':' (Q := Marked ':' (fun _ => Then _ _) ()) fun x hx => ⟨x, hx, rfl⟩
  refine ((Tidy.exact (P := (· = p.name.toList)) rfl).andThen hrest).imp ?_
  rintro y ⟨_, _, rfl, ⟨_, ⟨v, x, hv, hx, rfl⟩, rfl⟩, rfl⟩
  exact ⟨v, x, hname, hv, hx, rfl⟩

theorem TypeParametersSpell.tidy {ps : List TypeParameter} (h : TypeParametersSpell ps w) :
    Tidy (TypeParametersSpell ps) (writeTypeParameters ps) w := by
  cases h with
  | none => exact .exact .none
  | @some p ps w hbounded hps =>
    exact (hps.tidy fun _ _ h => h.tidy).around ['<'] ['>']
      (Q := TypeParametersSpell (p :: ps)) fun _ => .some hbounded

theorem ReturnSpells.tidy {r : Option TypeTree} : ReturnSpells r w →
    Tidy (ReturnSpells r) (match r with | none => ['V'] | some t => t.write) w := by
  intro h
  cases h with
  | void => exact .exact .void
  | type ht => exact ht.tidy.imp fun _ => .type

theorem ClassSignature.Spells.tidy {s : ClassSignature} (h : s.Spells w) :
    Tidy s.Spells s.write w := by
  obtain ⟨u, v, x, hu, hv, hx, rfl⟩ := h
  rw [ClassSignature.write, List.append_assoc]
  refine (hu.tidy.andThen (hv.tidy.andThen (hx.tidy fun _ _ h => h.tidy))).imp ?_
  rintro y ⟨u, _, hu, ⟨v, x, hv, hx, rfl⟩, rfl⟩
  exact ⟨u, v, x, hu, hv, hx, rfl⟩

theorem MethodSignature.Spells.tidy {s : MethodSignature} (h : s.Spells w) :
    Tidy s.Spells s.write w := by
  obtain ⟨u, v, r, x, hu, hv, hr, hx, rfl⟩ := h
  have hthrows := hx.tidy (Marked.tidy (fun _ _ h => h.tidy) '^')
  have hresult := (hr.tidy.andThen hthrows).cons ')' (Q := Marked ')' (fun _ => Then _ _) ())
    fun x hx => ⟨x, hx, rfl⟩
  have hlist := ((hv.tidy fun _ _ h => h.tidy).andThen hresult).cons '('
    (Q := Marked '(' (fun _ => Then _ _) ()) fun x hx => ⟨x, hx, rfl⟩
  refine (hu.tidy.andThen hlist).imp ?_
  rintro y ⟨u, _, hu, ⟨_, ⟨v, _, hv, ⟨_, ⟨r, x, hr, hx, rfl⟩, rfl⟩, rfl⟩, rfl⟩, rfl⟩
  exact ⟨u, v, r, x, hu, hv, hr, hx, rfl⟩

/-! ### The text that is written again -/

theorem spelled_of_tidy (htidy : ∀ w, P w → Tidy P t w) :
    ∀ {w : List Char}, P w → P t ∧ t.length ≤ w.length := by
  intro w
  induction hn : w.length using Nat.strongRecOn generalizing w with
  | ind n ih =>
    intro hw
    rcases (htidy w hw).2 with rfl | ⟨w', hdrop, hw'⟩
    · exact ⟨hw, hn.le⟩
    · have hlt := hdrop.length_lt
      obtain ⟨ht, hle⟩ := ih _ (hn ▸ hlt) rfl hw'
      exact ⟨ht, by omega⟩

theorem written_iff_of_tidy (htidy : ∀ w, P w → Tidy P t w) (hw : P w) :
    t = w ↔ ¬ ∃ w', DropsSlash w w' ∧ P w' := by
  constructor
  · rintro rfl ⟨w', hdrop, hw'⟩
    have hle := (spelled_of_tidy htidy hw').2
    have hlt := hdrop.length_lt
    omega
  · intro hnone
    exact ((htidy w hw).2.resolve_right hnone).symm

/-- The text has a slash behind an `L` that can be left out without changing what is read. -/
def HasStraySlash (parse : String → Except Invalid α) (text : String) : Prop :=
  ∃ text', DropsSlash text.toList text'.toList ∧ parse text' = parse text

theorem written_iff_no_stray_slash {parse : String → Except Invalid α}
    {P : α → List Char → Prop} {write : α → List Char}
    (hparse : ∀ {text a}, parse text = .ok a ↔ P a text.toList)
    (htidy : ∀ a w, P a w → Tidy (P a) (write a) w) {text : String} {a : α}
    (h : parse text = .ok a) :
    parse (String.ofList (write a)) = .ok a ∧
      (String.ofList (write a) = text ↔ ¬ HasStraySlash parse text) := by
  have hspells := hparse.mp h
  refine ⟨hparse.mpr ?_, ?_⟩
  · rw [String.toList_ofList]
    exact (spelled_of_tidy (htidy a) hspells).1
  · rw [← String.toList_inj, String.toList_ofList, written_iff_of_tidy (htidy a) hspells,
      not_iff_not]
    constructor
    · rintro ⟨w', hdrop, hw'⟩
      refine ⟨String.ofList w', by rwa [String.toList_ofList], ?_⟩
      rw [h, hparse, String.toList_ofList]
      exact hw'
    · rintro ⟨text', hdrop, heq⟩
      exact ⟨_, hdrop, hparse.mp (heq.trans h)⟩

theorem text_of_parse (text : String) :
    (∀ t, TypeTree.parse text = .ok t →
      TypeTree.parse t.text = .ok t ∧ (t.text = text ↔ ¬ HasStraySlash TypeTree.parse text)) ∧
    (∀ s, MethodSignature.parse text = .ok s →
      MethodSignature.parse s.text = .ok s ∧
        (s.text = text ↔ ¬ HasStraySlash MethodSignature.parse text)) ∧
    (∀ s, ClassSignature.parse text = .ok s →
      ClassSignature.parse s.text = .ok s ∧
        (s.text = text ↔ ¬ HasStraySlash ClassSignature.parse text)) :=
  ⟨fun _ => written_iff_no_stray_slash TypeTree.parse_eq_ok
      fun _ _ => TypeTree.SpellsReference.tidy,
    fun _ => written_iff_no_stray_slash MethodSignature.parse_eq_ok
      fun _ _ => MethodSignature.Spells.tidy,
    fun _ => written_iff_no_stray_slash ClassSignature.parse_eq_ok
      fun _ _ => ClassSignature.Spells.tidy⟩

theorem text_of_parse_qualified :
    TypeTree.parse "Lp/Box<TT;>;" =
        .ok (.classType (.top "p" "Box" [.exact (.variable "T")])) ∧
      ¬ HasStraySlash TypeTree.parse "Lp/Box<TT;>;" := by
  have h : TypeTree.parse "Lp/Box<TT;>;" =
      .ok (.classType (.top "p" "Box" [.exact (.variable "T")])) := by cbv
  exact ⟨h, ((text_of_parse "Lp/Box<TT;>;").1 _ h).2.mp (by cbv)⟩

theorem leading_slash_is_dropped :
    TypeTree.parse "L/Foo;" = .ok (.classType (.top "" "Foo" [])) ∧
      (TypeTree.classType (.top "" "Foo" [])).text = "LFoo;" := by
  exact ⟨by cbv, by cbv⟩

end JvmTypes.Signature
