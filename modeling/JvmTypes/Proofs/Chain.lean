import JvmTypes.Shape
import Mathlib.Data.Fintype.Pigeonhole
import Mathlib.Logic.Relation
/-!
# Chains of links

Each place links to one other at most. The chain of links from a place ends exactly if it comes to
no circle, and if only so many classes have links, it then ends after so many steps.
-/
namespace JvmTypes

variable {α : Type} {next : α → Option α} {a b c : α}

/-- Where `n` links lead, if there are so many. -/
def follow (next : α → Option α) : Nat → α → Option α
  | 0, a => some a
  | n + 1, a => (next a).bind (follow next n)

/-- The chain of links is finite. -/
def ChainEnds (next : α → Option α) (a : α) : Prop := ∃ n, follow next n a = none

def Linked (next : α → Option α) (a b : α) : Prop := next a = some b

/-- The chain of links comes to a circle. -/
def RunsInCircle (next : α → Option α) (a : α) : Prop :=
  ∃ b, Relation.ReflTransGen (Linked next) a b ∧ Relation.TransGen (Linked next) b b

theorem follow_succ_of_some (h : next a = some b) (n : Nat) :
    follow next (n + 1) a = follow next n b := by
  rw [follow, h, Option.bind_some]

theorem follow_add (m n : Nat) (a : α) :
    follow next (m + n) a = (follow next m a).bind (follow next n) := by
  induction m generalizing a with
  | zero => rw [Nat.zero_add, follow, Option.bind_some]
  | succ m ih =>
    rw [Nat.succ_add, follow, follow, Option.bind_assoc]
    cases next a with
    | none => rfl
    | some b => exact ih b

theorem follow_none_of_le {m n : Nat} (hle : m ≤ n) (h : follow next m a = none) :
    follow next n a = none := by
  obtain ⟨k, rfl⟩ := Nat.exists_eq_add_of_le hle
  rw [follow_add, h, Option.bind_none]

theorem linked_of_follow {n : Nat} (h : follow next n a = some b)
    (hn : follow next (n + 1) a = some c) : Linked next b c := by
  rw [follow_add, h, Option.bind_some, follow] at hn
  obtain ⟨d, hd, hc⟩ := Option.bind_eq_some_iff.mp hn
  obtain rfl := Option.some.inj hc
  exact hd

theorem reflTransGen_of_follow {n : Nat} (h : follow next n a = some b) :
    Relation.ReflTransGen (Linked next) a b := by
  induction n generalizing a with
  | zero =>
    obtain rfl := Option.some.inj h
    exact .refl
  | succ n ih =>
    obtain ⟨c, hc, h⟩ := Option.bind_eq_some_iff.mp h
    exact .head hc (ih h)

theorem transGen_of_follow {n : Nat} (hn : 0 < n) (h : follow next n a = some b) :
    Relation.TransGen (Linked next) a b := by
  cases n with
  | zero => omega
  | succ n =>
    obtain ⟨c, hc, h⟩ := Option.bind_eq_some_iff.mp h
    exact .head' hc (reflTransGen_of_follow h)

theorem exists_follow_of_transGen (h : Relation.TransGen (Linked next) a b) :
    ∃ n, 0 < n ∧ follow next n a = some b := by
  induction h with
  | @single b hb =>
    refine ⟨1, by omega, ?_⟩
    rw [follow_succ_of_some hb, follow]
  | @tail b c _ hc ih =>
    obtain ⟨n, hn, hb⟩ := ih
    refine ⟨n + 1, by omega, ?_⟩
    rw [follow_add, hb, Option.bind_some, follow_succ_of_some hc, follow]

theorem not_transGen_of_single {κ : Type} {R : κ → κ → Prop} {a b : κ}
    (hR : ∀ x y, R x y → x = a ∧ y = b) (hne : a ≠ b) (k : κ) : ¬ Relation.TransGen R k k := by
  intro hcircle
  obtain ⟨_, hfirst, _⟩ := Relation.TransGen.head'_iff.mp hcircle
  obtain ⟨_, _, hlast⟩ := Relation.TransGen.tail'_iff.mp hcircle
  have hstart := (hR _ _ hfirst).1
  have hend := (hR _ _ hlast).2
  exact hne (hstart.symm.trans hend)

namespace ChainEnds

theorem of_none (h : next a = none) : ChainEnds next a :=
  ⟨1, by rw [follow, h, Option.bind_none]⟩

theorem of_some (h : next a = some b) (hb : ChainEnds next b) : ChainEnds next a := by
  obtain ⟨n, hn⟩ := hb
  exact ⟨n + 1, by rw [follow_succ_of_some h, hn]⟩

theorem tail (ha : ChainEnds next a) (h : next a = some b) : ChainEnds next b := by
  obtain ⟨n, hn⟩ := ha
  refine ⟨n, ?_⟩
  have hlater := follow_none_of_le (Nat.le_succ n) hn
  rwa [follow_succ_of_some h] at hlater

theorem of_reflTransGen (ha : ChainEnds next a) (h : Relation.ReflTransGen (Linked next) a b) :
    ChainEnds next b := by
  induction h with
  | refl => exact ha
  | tail _ hlink ih => exact ih.tail hlink

@[elab_as_elim]
theorem induct {motive : (a : α) → ChainEnds next a → Prop}
    (step : ∀ a (ha : ChainEnds next a), (∀ b (hb : next a = some b), motive b (ha.tail hb)) →
      motive a ha)
    (ha : ChainEnds next a) : motive a ha := by
  have hgoes : ∀ n a (ha : ChainEnds next a), follow next n a = none → motive a ha := by
    intro n
    induction n with
    | zero =>
      intro a ha hn
      cases hn
    | succ n ih =>
      intro a ha hn
      apply step a ha
      intro b hb
      rw [follow_succ_of_some hb] at hn
      exact ih b (ha.tail hb) hn
  obtain ⟨n, hn⟩ := id ha
  exact hgoes n a ha hn

theorem not_circle (ha : ChainEnds next a) : ¬ Relation.TransGen (Linked next) a a := by
  intro hcircle
  obtain ⟨k, hk, hback⟩ := exists_follow_of_transGen hcircle
  obtain ⟨n, hn⟩ := ha
  induction n using Nat.strong_induction_on with
  | _ n ih =>
    by_cases hle : k ≤ n
    · obtain ⟨m, rfl⟩ := Nat.exists_eq_add_of_le hle
      rw [follow_add, hback, Option.bind_some] at hn
      exact ih m (by omega) hn
    · have hnone := follow_none_of_le (by omega : n ≤ k) hn
      rw [hback] at hnone
      cases hnone

theorem not_runsInCircle (ha : ChainEnds next a) : ¬ RunsInCircle next a := by
  rintro ⟨b, hreach, hcircle⟩
  exact (ha.of_reflTransGen hreach).not_circle hcircle

end ChainEnds

def StopsAt (next : α → Option α) (a b : α) : Prop :=
  Relation.ReflTransGen (Linked next) a b ∧ next b = none

theorem eq_of_reflTransGen (hb : next b = none) (h : Relation.ReflTransGen (Linked next) b c) :
    c = b := by
  rcases Relation.ReflTransGen.cases_head h with rfl | ⟨d, hd, _⟩
  · rfl
  · rw [Linked, hb] at hd
    cases hd

namespace StopsAt

theorem chainEnds (h : StopsAt next a b) : ChainEnds next a := by
  obtain ⟨hreach, hnone⟩ := h
  induction hreach using Relation.ReflTransGen.head_induction_on with
  | refl => exact .of_none hnone
  | head hlink _ ih => exact .of_some hlink ih

theorem unique (hb : StopsAt next a b) (hc : StopsAt next a c) : b = c := by
  have hunique : Relator.RightUnique (Linked next) := fun _ _ _ hy hz =>
    Option.some.inj (hy.symm.trans hz)
  rcases Relation.ReflTransGen.total_of_right_unique hunique hb.1 hc.1 with hbc | hcb
  · exact (eq_of_reflTransGen hb.2 hbc).symm
  · exact eq_of_reflTransGen hc.2 hcb

end StopsAt

section Bounded

variable {next : ClassId → Option ClassId} {size : Nat} {id : ClassId}
  (hsize : ∀ b, Relation.ReflTransGen (Linked next) id b → (next b).isSome → b.index < size)
include hsize

/-- A chain that goes on visits some class again, as it finds links at the first `size` classes
only. -/
theorem follow_none_of_not_runsInCircle (h : ¬ RunsInCircle next id) :
    follow next (size + 1) id = none := by
  by_contra hgoes
  have hvisits : ∀ i : Fin (size + 1), ∃ c, follow next i id = some c ∧ c.index < size := by
    intro i
    have hsome : ∀ n ≤ size + 1, ∃ c, follow next n id = some c := by
      intro n hn
      apply Option.ne_none_iff_exists'.mp
      intro hnone
      exact hgoes (follow_none_of_le hn hnone)
    obtain ⟨c, hc⟩ := hsome i (by omega)
    obtain ⟨d, hd⟩ := hsome (i + 1) (by omega)
    refine ⟨c, hc, hsize c (reflTransGen_of_follow hc) ?_⟩
    rw [linked_of_follow hc hd]
    rfl
  choose c hc hlt using hvisits
  obtain ⟨i, j, hne, hij⟩ := Fintype.exists_ne_map_eq_of_card_lt
    (fun i => (⟨(c i).index, hlt i⟩ : Fin size)) (by simp)
  have hsame : c i = c j := congrArg ClassId.mk (Fin.mk.inj hij)
  -- between the two visits the chain goes round
  have hround : ∀ i j : Fin (size + 1), i < j → c i = c j → RunsInCircle next id := by
    intro i j hlt hsame
    refine ⟨c i, reflTransGen_of_follow (hc i), ?_⟩
    have hstep : (j : Nat) = i + (j - i) := by omega
    have hj := hc j
    rw [hstep, follow_add, hc i, Option.bind_some, ← hsame] at hj
    exact transGen_of_follow (by omega) hj
  rcases lt_or_gt_of_ne hne with hlt | hgt
  · exact h (hround i j hlt hsame)
  · exact h (hround j i hgt hsame.symm)

theorem chainEnds_iff_not_runsInCircle : ChainEnds next id ↔ ¬ RunsInCircle next id := by
  constructor
  · exact ChainEnds.not_runsInCircle
  · intro h
    exact ⟨size + 1, follow_none_of_not_runsInCircle hsize h⟩

/-- A chain ends if every link of a chain that goes on is one between names, and these links make no
circle. -/
theorem chainEnds_of_names {κ : Type} {R : κ → κ → Prop} (hR : ∀ k, ¬ Relation.TransGen R k k)
    {name : ClassId → κ}
    (hname : ∀ i j, next i = some j → ChainEnds next i ∨ R (name i) (name j)) :
    ChainEnds next id := by
  rw [chainEnds_iff_not_runsInCircle hsize]
  rintro ⟨b, _, hcircle⟩
  have hgoes : ¬ ChainEnds next b := fun hb => hb.not_circle hcircle
  have hlink : ∀ c d, ¬ ChainEnds next c → Linked next c d →
      R (name c) (name d) ∧ ¬ ChainEnds next d := by
    intro c d hc hd
    constructor
    · exact (hname c d hd).resolve_left hc
    · intro hends
      exact hc (.of_some hd hends)
  have hnames : ∀ c, Relation.TransGen (Linked next) b c →
      Relation.TransGen R (name b) (name c) ∧ ¬ ChainEnds next c := by
    intro c hc
    induction hc with
    | single hc =>
      obtain ⟨hr, hd⟩ := hlink b _ hgoes hc
      exact ⟨.single hr, hd⟩
    | tail _ hd ih =>
      obtain ⟨hr, hd⟩ := hlink _ _ ih.2 hd
      exact ⟨ih.1.tail hr, hd⟩
  exact hR (name b) (hnames b hcircle).1

end Bounded

end JvmTypes
