import Mathlib.Data.List.TakeWhile
import JvmTypes.Descriptor
/-!
# The format of descriptors

The reader of descriptors loses nothing: a descriptor is written as the text it was read from. It
reads every descriptor whose class names end where the text of a class ends, whatever text follows.
So the texts that are read are the texts that are written, and each has one reading.
-/
namespace JvmTypes

/-- Each class name in the type can be told from what follows it in a descriptor. -/
def FieldType.IsNamed : FieldType → Prop
  | .base _ => True
  | .object name => name ≠ "" ∧ ';' ∉ name.toList
  | .array component => component.IsNamed

instance FieldType.decidableIsNamed : ∀ t : FieldType, Decidable t.IsNamed
  | .base _ => isTrue trivial
  | .object name => inferInstanceAs (Decidable (name ≠ "" ∧ ';' ∉ name.toList))
  | .array component => decidableIsNamed component

namespace MethodDescriptor

def types (d : MethodDescriptor) : List FieldType := d.parameters ++ d.returnType.toList

def IsNamed (d : MethodDescriptor) : Prop := ∀ t ∈ d.types, t.IsNamed

instance (d : MethodDescriptor) : Decidable d.IsNamed := List.decidableBAll _ _

theorem isNamed_iff {d : MethodDescriptor} :
    d.IsNamed ↔ (∀ t ∈ d.parameters, t.IsNamed) ∧ ∀ t ∈ d.returnType, t.IsNamed := by
  simp only [IsNamed, types, List.mem_append, Option.mem_toList, Option.mem_def, or_imp, forall_and]

end MethodDescriptor

namespace Descriptor

/-! ## What is read was written -/

theorem of_readName {text rest name : List Char} {n d : Char}
    (hname : text.takeWhile (· ≠ ';') = n :: name) (hrest : text.dropWhile (· ≠ ';') = d :: rest) :
    (FieldType.object (String.ofList (n :: name))).IsNamed ∧ text = n :: name ++ ';' :: rest := by
  have hd : d = ';' := by
    have hne : text.dropWhile (· ≠ ';') ≠ [] := by rw [hrest]; exact List.cons_ne_nil _ _
    have hnot := List.head_dropWhile_not (· ≠ ';') hne
    simp only [hrest, List.head_cons] at hnot
    simpa using hnot
  refine ⟨⟨fun hempty => ?_, fun hmem => ?_⟩, ?_⟩
  · simpa using congrArg String.toList hempty
  · rw [String.toList_ofList, ← hname] at hmem
    simpa using List.mem_takeWhile_imp hmem
  · have hsplit := List.takeWhile_append_dropWhile (p := (· ≠ ';')) (l := text)
    rw [hname, hrest, hd] at hsplit
    exact hsplit.symm

theorem of_read : ∀ {text rest : List Char} {t : FieldType}, read text = some (t, rest) →
    t.IsNamed ∧ text = write t ++ rest
  | [], _, _, h => by cases h
  | c :: text, rest, t, h => by
    rw [read] at h
    split at h
    case h_1 b hb =>
      cases h
      rw [write, BaseType.letter_of_ofLetter? hb]
      exact ⟨trivial, rfl⟩
    case h_2 =>
      split at h
      case isTrue hc =>
        obtain ⟨⟨component, rest'⟩, hread, heq⟩ := Option.map_eq_some_iff.mp h
        cases heq
        obtain ⟨hnamed, htext⟩ := of_read hread
        exact ⟨hnamed, by rw [hc, htext, write, List.cons_append]⟩
      case isFalse =>
        split at h
        case isTrue hc =>
          split at h
          case h_1 n name d rest' hname hrest =>
            cases h
            obtain ⟨hnamed, htext⟩ := of_readName hname hrest
            exact ⟨hnamed, by rw [hc, htext]; simp [write]⟩
          case h_2 => cases h
        case isFalse => cases h

theorem of_readParameters : ∀ (fuel : Nat) {text rest : List Char} {ts : List FieldType},
    readParameters fuel text = some (ts, rest) →
    (∀ t ∈ ts, t.IsNamed) ∧ text = ts.flatMap write ++ ')' :: rest
  | 0, _, _, _, h => by cases h
  | fuel + 1, text, rest, ts, h => by
    unfold readParameters at h
    split at h
    case h_1 => cases h
    case h_2 =>
      cases h
      exact ⟨List.forall_mem_nil _, rfl⟩
    case h_3 n heq _ =>
      cases heq
      obtain ⟨⟨t, rest₁⟩, ht, h⟩ := Option.bind_eq_some_iff.mp h
      obtain ⟨⟨ts, rest₂⟩, hts, h⟩ := Option.bind_eq_some_iff.mp h
      cases h
      obtain ⟨hnamed, rfl⟩ := of_read ht
      obtain ⟨hall, rfl⟩ := of_readParameters fuel hts
      exact ⟨List.forall_mem_cons.mpr ⟨hnamed, hall⟩, by simp⟩

theorem of_readReturn {text rest : List Char} {r : Option FieldType} :
    readReturn text = some (r, rest) →
    (∀ t ∈ r, t.IsNamed) ∧ text = (match r with | none => ['V'] | some t => write t) ++ rest := by
  intro h
  unfold readReturn at h
  split at h
  case h_1 =>
    cases h
    exact ⟨fun _ ht => (Option.not_mem_none _ ht).elim, rfl⟩
  case h_2 =>
    obtain ⟨⟨t, rest'⟩, ht, heq⟩ := Option.map_eq_some_iff.mp h
    cases heq
    obtain ⟨hnamed, htext⟩ := of_read ht
    refine ⟨fun u hu => ?_, htext⟩
    cases hu
    exact hnamed

theorem of_readMethod {text rest : List Char} {d : MethodDescriptor}
    (h : readMethod text = some (d, rest)) : d.IsNamed ∧ text = writeMethod d ++ rest := by
  unfold readMethod at h
  split at h
  case h_1 =>
    obtain ⟨⟨ts, rest₁⟩, hts, h⟩ := Option.bind_eq_some_iff.mp h
    obtain ⟨⟨r, rest₂⟩, hr, h⟩ := Option.bind_eq_some_iff.mp h
    cases h
    obtain ⟨hparameters, rfl⟩ := of_readParameters _ hts
    obtain ⟨hreturn, htext⟩ := of_readReturn hr
    refine ⟨MethodDescriptor.isNamed_iff.mpr ⟨hparameters, hreturn⟩, ?_⟩
    rw [htext, writeMethod]
    cases r <;> simp
  case h_2 => cases h

theorem of_whole {reader : List Char → Option (α × List Char)} {text : String} {a : α}
    (h : whole reader text = .ok a) : reader text.toList = some (a, []) := by
  unfold whole at h
  split at h
  case h_1 heq =>
    cases h
    exact heq
  case h_2 => cases h

theorem write_of_parse {text : String} {t : FieldType} (h : FieldType.parse text = .ok t) :
    write t = text.toList := by
  rw [(of_read (of_whole h)).2, List.append_nil]

theorem writeMethod_of_parse {text : String} {d : MethodDescriptor}
    (h : MethodDescriptor.parse text = .ok d) : writeMethod d = text.toList := by
  rw [(of_readMethod (of_whole h)).2, List.append_nil]

/-! ## What is written is read -/

/-- Whatever follows a descriptor, the reader stops at its end. -/
theorem read_write : ∀ {t : FieldType} (rest : List Char), t.IsNamed →
    read (write t ++ rest) = some (t, rest)
  | .base b, rest, _ => by simp [write, read]
  | .array component, rest, h => by
    have hletter : BaseType.ofLetter? '[' = none := rfl
    simp [write, read, hletter, read_write (t := component) rest h]
  | .object name, rest, ⟨hne, hclear⟩ => by
    have hletter : BaseType.ofLetter? 'L' = none := rfl
    have hall : ∀ c ∈ name.toList, decide (c ≠ ';') = true := fun c hc =>
      decide_eq_true (ne_of_mem_of_not_mem hc hclear)
    have htake : (name.toList ++ ';' :: rest).takeWhile (· ≠ ';') = name.toList := by
      rw [List.takeWhile_append_of_pos hall, List.takeWhile_cons_of_neg (by simp),
        List.append_nil]
    have hdrop : (name.toList ++ ';' :: rest).dropWhile (· ≠ ';') = ';' :: rest := by
      rw [List.dropWhile_append_of_pos hall, List.dropWhile_cons_of_neg (by simp)]
    obtain ⟨n, ns, hname⟩ : ∃ n ns, name.toList = n :: ns :=
      List.exists_cons_of_ne_nil (by simpa using hne)
    have hbody : write (.object name) ++ rest = 'L' :: (name.toList ++ ';' :: rest) := by
      simp [write]
    rw [hbody, read, hletter]
    simp only [reduceIte, Char.reduceEq]
    rw [htake, hdrop, hname]
    simp only [← hname, String.ofList_toList]

theorem write_eq_cons (t : FieldType) : ∃ c cs, write t = c :: cs ∧ c ≠ ')' ∧ c ≠ 'V' := by
  cases t with
  | base b => exact ⟨b.letter, [], rfl, by cases b <;> decide, by cases b <;> decide⟩
  | object name => exact ⟨'L', _, rfl, by decide, by decide⟩
  | array component => exact ⟨'[', _, rfl, by decide, by decide⟩

theorem readParameters_write : ∀ {ts : List FieldType} {fuel : Nat} (rest : List Char),
    (∀ t ∈ ts, t.IsNamed) → (ts.flatMap write).length < fuel →
    readParameters fuel (ts.flatMap write ++ ')' :: rest) = some (ts, rest)
  | _, 0, _, _, hfuel => absurd hfuel (Nat.not_lt_zero _)
  | [], fuel + 1, rest, _, _ => rfl
  | t :: ts, fuel + 1, rest, h, hfuel => by
    obtain ⟨ht, hts⟩ := List.forall_mem_cons.mp h
    obtain ⟨c, cs, hwrite, hparen, -⟩ := write_eq_cons t
    have hlength : (ts.flatMap write).length < fuel := by
      simp only [List.flatMap_cons, List.length_append, hwrite, List.length_cons] at hfuel
      omega
    have htext : (t :: ts).flatMap write ++ ')' :: rest =
        write t ++ (ts.flatMap write ++ ')' :: rest) := by simp
    have hread := read_write (ts.flatMap write ++ ')' :: rest) ht
    rw [htext, readParameters, hread]
    · simp [readParameters_write rest hts hlength]
    · rw [hwrite]
      intro rest' heq
      exact hparen (List.cons.inj heq).1

theorem writeMethod_append {d : MethodDescriptor} (rest : List Char)
    (h : ∀ t ∈ d.returnType, t.IsNamed) :
    ∃ text, writeMethod d ++ rest = '(' :: (d.parameters.flatMap write ++ ')' :: text) ∧
      readReturn text = some (d.returnType, rest) := by
  cases hr : d.returnType with
  | none => exact ⟨'V' :: rest, by simp [writeMethod, hr], rfl⟩
  | some t =>
    obtain ⟨c, cs, hwrite, -, hvoid⟩ := write_eq_cons t
    refine ⟨write t ++ rest, by simp [writeMethod, hr], ?_⟩
    rw [readReturn, read_write rest (h t hr)]
    · rfl
    · rw [hwrite]
      intro rest' heq
      exact hvoid (List.cons.inj heq).1

theorem readMethod_writeMethod {d : MethodDescriptor} (rest : List Char) (h : d.IsNamed) :
    readMethod (writeMethod d ++ rest) = some (d, rest) := by
  obtain ⟨hparameters, hreturn⟩ := MethodDescriptor.isNamed_iff.mp h
  obtain ⟨text, hbody, hread⟩ := writeMethod_append rest hreturn
  have hfuel : (d.parameters.flatMap write).length <
      (d.parameters.flatMap write ++ ')' :: text).length + 1 := by
    simp only [List.length_append]
    omega
  rw [hbody, readMethod, readParameters_write text hparameters hfuel]
  simp [hread]

/-! ## The texts that are read -/

theorem whole_eq_ok {reader : List Char → Option (α × List Char)} {text : String} {a : α} :
    whole reader text = .ok a ↔ reader text.toList = some (a, []) := by
  refine ⟨of_whole, fun h => ?_⟩
  rw [whole, h]

theorem whole_eq_error {reader : List Char → Option (α × List Char)} {text : String} :
    whole reader text = .error ⟨text⟩ ↔ ¬∃ a, whole reader text = .ok a := by
  unfold whole
  split <;> simp

end Descriptor

open Descriptor

theorem FieldType.parse_eq_ok {text : String} {t : FieldType} :
    FieldType.parse text = .ok t ↔ t.IsNamed ∧ t.descriptor = text := by
  constructor
  · intro h
    exact ⟨(of_read (of_whole h)).1, by rw [descriptor, write_of_parse h, String.ofList_toList]⟩
  · rintro ⟨hnamed, rfl⟩
    refine whole_eq_ok.mpr ?_
    rw [descriptor, String.toList_ofList]
    simpa using read_write [] hnamed

theorem MethodDescriptor.parse_eq_ok {text : String} {d : MethodDescriptor} :
    MethodDescriptor.parse text = .ok d ↔ d.IsNamed ∧ d.descriptor = text := by
  constructor
  · intro h
    exact ⟨(of_readMethod (of_whole h)).1,
      by rw [descriptor, writeMethod_of_parse h, String.ofList_toList]⟩
  · rintro ⟨hnamed, rfl⟩
    refine whole_eq_ok.mpr ?_
    rw [descriptor, String.toList_ofList]
    simpa using readMethod_writeMethod [] hnamed

theorem MethodDescriptor.eq_of_descriptor_eq {d e : MethodDescriptor} (hd : d.IsNamed)
    (he : e.IsNamed) (h : d.descriptor = e.descriptor) : d = e :=
  Except.ok.inj ((parse_eq_ok.mpr ⟨hd, h⟩).symm.trans (parse_eq_ok.mpr ⟨he, rfl⟩))

/-- The parsers accept the written descriptors with proper class names and no other text, read each
as what it was written from, and give back every other text whole as invalid. -/
theorem descriptors_read_iff_written (text : String) :
    (∀ t, FieldType.parse text = .ok t ↔ t.IsNamed ∧ t.descriptor = text) ∧
    (FieldType.parse text = .error ⟨text⟩ ↔
      ¬∃ t : FieldType, t.IsNamed ∧ t.descriptor = text) ∧
    (∀ d, MethodDescriptor.parse text = .ok d ↔
      (∀ t ∈ d.types, t.IsNamed) ∧ d.descriptor = text) ∧
    (MethodDescriptor.parse text = .error ⟨text⟩ ↔
      ¬∃ d : MethodDescriptor, (∀ t ∈ d.types, t.IsNamed) ∧ d.descriptor = text) := by
  refine ⟨fun t => FieldType.parse_eq_ok, ?_, fun d => MethodDescriptor.parse_eq_ok, ?_⟩
  · refine whole_eq_error.trans (not_congr (exists_congr fun t => ?_))
    exact FieldType.parse_eq_ok
  · refine whole_eq_error.trans (not_congr (exists_congr fun d => ?_))
    exact MethodDescriptor.parse_eq_ok

end JvmTypes
