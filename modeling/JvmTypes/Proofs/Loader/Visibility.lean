import JvmTypes.Proofs.Loader.ConversionUniform
import JvmTypes.Proofs.Loader.Exact
/-!
# What a signature that was given up leaves visible

While the class around it is in progress a declaration may miss a type variable, and its signature
is given up. If the declaration comes out the same as with every variable in sight, no signature was
given up that way: a signature that needs a variable of the classes around shows it. So such a
declaration asks for no class that it would not ask for with every variable in sight.
-/
namespace JvmTypes.Loader

open Signature

/-- The answers of a store that may miss a variable. -/
def loosely (s : Store) (enclosing : Option ClassId) : Answers where
  cls name id := s.lookup? name = some id
  var symbol v := v = none ∨ v = seenFrom s enclosing symbol
  faulty := False

def blindly (s : Store) : Answers where
  cls name id := s.lookup? name = some id
  var _ _ := False
  faulty := False

namespace Script

variable {α β : Type} {A : Answers} {s : Store} {enclosing : Option ClassId}

theorem trace_bind_some {p : Script α} {f : α → Script β} {b : β} {names : List String}
    (h : (p >>= f).Trace A (some b) names) :
    ∃ a front rest, p.Trace A (some a) front ∧ (f a).Trace A (some b) rest ∧
      names = front ++ rest := by
  induction p generalizing names with
  | done a => exact ⟨a, [], names, ⟨rfl, rfl⟩, h, rfl⟩
  | fail fault => cases h.1
  | askClass name next ih =>
    rcases h with ⟨id, rest, hid, rfl, h⟩ | ⟨_, h⟩
    · obtain ⟨a, front, rest, ha, hb, rfl⟩ := ih id h
      exact ⟨a, name :: front, rest, Or.inl ⟨id, front, hid, rfl, ha⟩, hb, rfl⟩
    · cases h
  | askVariable symbol next ih =>
    obtain ⟨v, hv, h⟩ := h
    obtain ⟨a, front, rest, ha, hb, rfl⟩ := ih v h
    exact ⟨a, front, rest, ⟨v, hv, ha⟩, hb, rfl⟩
  | attempt owner signature next _ ih =>
    rcases h with ⟨x, front, rest, hs, h, rfl⟩ | ⟨_, h⟩
    · obtain ⟨a, front', rest, ha, hb, rfl⟩ := ih x h
      exact ⟨a, front ++ front', rest, Or.inl ⟨x, front, front', hs, ha, rfl⟩, hb,
        (List.append_assoc _ _ _).symm⟩
    · cases h

theorem Asks.bind {p : Script α} (f : α → Script β) {q : Question} (h : p.Asks A q) :
    (p >>= f).Asks A q := by
  induction p with
  | done a => exact h.elim
  | fail fault => exact h.elim
  | askClass name next ih => exact h.imp_right fun ⟨id, hid, h⟩ => ⟨id, hid, ih id f h⟩
  | askVariable symbol next ih => exact h.imp_right fun ⟨v, hv, h⟩ => ⟨v, hv, ih v f h⟩
  | attempt owner signature next _ ih => exact h.imp_right fun ⟨b, hb, h⟩ => ⟨b, hb, ih b f h⟩

theorem Asks.bind_right {p : Script α} {f : α → Script β} {q : Question} {a : α}
    (ha : p.Ends A (some a)) (h : (f a).Asks A q) : (p >>= f).Asks A q := by
  induction p with
  | done b =>
    obtain rfl := Option.some.inj ha
    exact h
  | fail fault => cases ha
  | askClass name next ih =>
    rcases ha with ⟨id, hid, ha⟩ | ⟨_, ha⟩
    · exact Or.inr ⟨id, hid, ih id ha h⟩
    · cases ha
  | askVariable symbol next ih =>
    obtain ⟨v, hv, ha⟩ := ha
    exact Or.inr ⟨v, hv, ih v ha h⟩
  | attempt owner signature next _ ih =>
    rcases ha with ⟨b, hb, ha⟩ | ⟨_, ha⟩
    · exact Or.inr ⟨b, hb, ih b ha h⟩
    · cases ha

/-- Attempts no signature, and gives up where a variable is not found. -/
inductive Unforgiving : {α : Type} → Script α → Prop
  | done {α : Type} (a : α) : Unforgiving (.done a)
  | fail {α : Type} (fault : SignatureFault) : Unforgiving (.fail fault : Script α)
  | askClass {α : Type} {name : String} {next : ClassId →
      Script α} (h : ∀ id, Unforgiving (next id)) :
      Unforgiving (.askClass name next)
  | askVariable {α : Type} {symbol : String} {next : Option TypeVariable →
      Script α} {fault : SignatureFault}
      (hnone : next none = .fail fault) (h : ∀ v, Unforgiving (next v)) : Unforgiving
        (.askVariable symbol next)

theorem Uniform.unforgiving {ρ : ClassId → ClassId} {tries : Bool} {r : α → β} {p : Script α}
    {p' : Script β} (h : Uniform ρ tries r p p') (htries : tries = false) : p.Unforgiving := by
  induction h with
  | done a => exact .done a
  | fail fault => exact .fail fault
  | askClass _ ih => exact .askClass fun id => ih id htries
  | askVariable hnone _ ih => exact .askVariable hnone fun v => ih v htries
  | attempt _ _ _ _ => cases htries

/-- A variable that is missed makes a signature end early, so it asks for no more than it does
otherwise. -/
theorem Unforgiving.trace {p : Script α} (hp : p.Unforgiving) {r : Option α} {names : List String}
    (h : p.Trace (loosely s enclosing) r names) :
    (r = none ∨ p.Ends (exactly s enclosing) r) ∧
      ∀ n ∈ names, p.Asks (exactly s enclosing) (.cls n) := by
  induction hp generalizing names with
  | done a =>
    obtain ⟨hr, rfl⟩ := h
    exact ⟨Or.inr hr, by simp⟩
  | fail fault =>
    obtain ⟨hr, rfl⟩ := h
    exact ⟨Or.inl hr, by simp⟩
  | askClass _ ih =>
    rcases h with ⟨id, rest, hid, rfl, h⟩ | ⟨hf, _⟩
    · obtain ⟨hend, hasks⟩ := ih id h
      refine ⟨hend.imp_right fun hend => Or.inl ⟨id, hid, hend⟩, ?_⟩
      intro n hn
      rcases List.mem_cons.mp hn with rfl | hn
      · exact Or.inl rfl
      · exact Or.inr ⟨id, hid, hasks n hn⟩
    · exact hf.elim
  | askVariable hnone _ ih =>
    obtain ⟨v, hv, h⟩ := h
    rcases hv with rfl | rfl
    · rw [hnone] at h
      obtain ⟨hr, rfl⟩ := h
      exact ⟨Or.inl hr, by simp⟩
    · obtain ⟨hend, hasks⟩ := ih _ h
      exact ⟨hend.imp_right fun hend => ⟨_, rfl, hend⟩, fun n hn => Or.inr ⟨_, rfl, hasks n hn⟩⟩

theorem Ends.of_blindly {p : Script α} {a : Option α} {names : List String} {r : Option α}
    (h : p.Ends (blindly s) a) (ht : p.Trace (loosely s enclosing) r names) : r = a := by
  induction p generalizing names with
  | done b => exact ht.1.trans h.symm
  | fail fault => exact ht.1.trans h.symm
  | askClass name next ih =>
    rcases h with ⟨i, hi, h⟩ | ⟨hf, _⟩
    · rcases ht with ⟨j, rest, hj, _, ht⟩ | ⟨hf, _⟩
      · obtain rfl : i = j := Option.some.inj (hi.symm.trans hj)
        exact ih i h ht
      · exact hf.elim
    · exact hf.elim
  | askVariable symbol next ih =>
    obtain ⟨v, hv, _⟩ := h
    exact hv.elim
  | attempt owner signature next ihs ihn =>
    rcases h with ⟨b, hb, h⟩ | ⟨hf, _⟩
    · rcases ht with ⟨c, front, rest, hc, ht, _⟩ | ⟨hf, _⟩
      · obtain rfl := ihs hb hc
        exact ihn c h ht
      · exact hf.elim
    · exact hf.elim

/-- A result that came about although variables may have been missed, if it is `same` as the one
with every variable in sight, is that one, and the script asked for no further class on its way. -/
def Shows (s : Store) (enclosing : Option ClassId) (p : Script α) (same : α → α → Prop) : Prop :=
  ∀ a b names, p.Trace (loosely s enclosing) (some a) names →
    p.Ends (exactly s enclosing) (some b) → same a b →
    a = b ∧ ∀ n ∈ names, p.Asks (exactly s enclosing) (.cls n)

theorem Unforgiving.shows {p : Script α} (hp : p.Unforgiving) (same : α → α → Prop) :
    Shows s enclosing p same := by
  intro a b names htrace hend _
  obtain ⟨hends, hasks⟩ := hp.trace htrace
  rcases hends with hnone | hends
  · cases hnone
  · exact ⟨Option.some.inj (hends.unique (functional_exactly s enclosing) hend), hasks⟩

theorem Shows.askClass {name : String} {next : ClassId → Script α} {same : α → α → Prop}
    (h : ∀ id, Shows s enclosing (next id) same) : Shows s enclosing (askClass name next) same := by
  intro a b names htrace hend hsame
  rcases htrace with ⟨i, rest, hi, rfl, htrace⟩ | ⟨hf, _⟩
  · rcases hend with ⟨j, hj, hend⟩ | ⟨hf, _⟩
    · obtain rfl : i = j := Option.some.inj (hi.symm.trans hj)
      obtain ⟨rfl, hasks⟩ := h i a b rest htrace hend hsame
      refine ⟨rfl, ?_⟩
      intro n hn
      rcases List.mem_cons.mp hn with rfl | hn
      · exact Or.inl rfl
      · exact Or.inr ⟨i, hi, hasks n hn⟩
    · exact hf.elim
  · exact hf.elim

theorem Shows.bind {p : Script α} {f : α → Script β} {part : α → α → Prop} {same : β → β → Prop}
    (hp : Shows s enclosing p part)
    (hpart : ∀ a b c d, (f a).Ends (loosely s enclosing) (some c) →
        (f b).Ends (exactly s enclosing) (some d) →
      same c d → part a b) (hf : ∀ a, Shows s enclosing (f a) same) :
    Shows s enclosing (p >>= f) same := by
  intro c d names htrace hend hsame
  obtain ⟨a, front, rest, hfront, hrest, rfl⟩ := trace_bind_some htrace
  obtain ⟨b, hb, hend⟩ := ends_bind_some.mp hend
  obtain ⟨rfl, hasks⟩ := hp a b front hfront hb (hpart a b c d hrest.ends hend hsame)
  obtain ⟨rfl, hasks'⟩ := hf a c d rest hrest hend hsame
  refine ⟨rfl, ?_⟩
  intro n hn
  rcases List.mem_append.mp hn with hn | hn
  · exact (hasks n hn).bind f
  · exact Asks.bind_right hb (hasks' n hn)

theorem Shows.mapM {f : α → Script β} {same : β → β → Prop} (h : ∀ x, Shows s enclosing (f x) same)
    (xs : List α) :
    Shows s enclosing (xs.mapM f) (List.Forall₂ same) := by
  induction xs with
  | nil =>
    rw [List.mapM_nil]
    exact (Unforgiving.done []).shows _
  | cons x xs ih =>
    rw [List.mapM_cons]
    refine (h x).bind ?_ fun y => ?_
    · intro y z c d hc hd hsame
      obtain ⟨ys, _, hc⟩ := ends_bind_some.mp hc
      obtain ⟨zs, _, hd⟩ := ends_bind_some.mp hd
      obtain rfl := Option.some.inj hc
      obtain rfl := Option.some.inj hd
      exact (List.forall₂_cons.mp hsame).1
    · refine ih.bind ?_ fun ys => (Unforgiving.done (y :: ys)).shows _
      intro ys zs c d hc hd hsame
      obtain rfl := Option.some.inj hc
      obtain rfl := Option.some.inj hd
      exact (List.forall₂_cons.mp hsame).2

theorem shows_signed {owner : String} {signature : Option String} {convert : String → Script α}
    {plain : Script α} {same : α → α → Prop} (hconvert : ∀ text, (convert text).Unforgiving)
    (hplain : plain.Unforgiving)
    (hblind : ∀ text a b, plain.Ends (loosely s enclosing) (some a) →
      (convert text).Ends (exactly s enclosing) (some b) → same a b →
      (convert text).Ends (blindly s) (some b)) :
    Shows s enclosing (fromSignature owner signature convert >>= fun found => orPlain found plain)
      same := by
  intro a b names htrace hend hsame
  obtain ⟨found, front, rest, hfront, hrest, rfl⟩ := trace_bind_some htrace
  obtain ⟨found', hfound, hend⟩ := ends_bind_some.mp hend
  have hsigned : found = found' ∧
      ∀ n ∈ front, (fromSignature owner signature convert).Asks (exactly s enclosing)
      (.cls n) := by
    cases signature with
    | none =>
      obtain ⟨hfront, rfl⟩ := hfront
      exact ⟨Option.some.inj (hfront.trans hfound.symm), by simp⟩
    | some text =>
      rcases hfront with ⟨x, names, _, hx, ⟨hfront, rfl⟩, rfl⟩ | ⟨hf, _⟩
      · obtain rfl := Option.some.inj hfront
        rcases hfound with ⟨y, hy, hfound⟩ | ⟨hf, _⟩
        · obtain rfl := Option.some.inj hfound
          obtain ⟨hends, hasks⟩ := (hconvert text).trace hx
          refine ⟨?_, fun n hn => Or.inl (hasks n (by simpa using hn))⟩
          rcases hends with rfl | hends
          · cases found' with
            | none => rfl
            | some b' =>
              obtain rfl := Option.some.inj hend
              exact (hblind text a b hrest.ends hy hsame).of_blindly hx
          · exact hends.unique (functional_exactly s enclosing) hy
        · exact hf.elim
      · exact hf.elim
  obtain ⟨rfl, hasks⟩ := hsigned
  have hrested : (orPlain found plain).Unforgiving := by
    cases found with
    | none => exact hplain
    | some x => exact .done x
  obtain ⟨rfl, hasks'⟩ := hrested.shows same a b rest hrest hend hsame
  refine ⟨rfl, ?_⟩
  intro n hn
  rcases List.mem_append.mp hn with hn | hn
  · exact (hasks n hn).bind _
  · exact Asks.bind_right hfound (hasks' n hn)

end Script

end JvmTypes.Loader
