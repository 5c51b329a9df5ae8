import JvmTypes.HookRegistry
import Mathlib.Data.List.Induction
/-!
# Operations on waiting hooks

What a sequence of registrations and deliveries leaves waiting, and which sequences a script makes,
those of the hooks that it starts included. A script does not tell which hooks its deliveries start.
That is for the operations before to tell, and then nothing is left open.
-/
namespace JvmTypes

namespace HookOperation

def leaves : HookOperation → Option Hook
  | register _ hook _ => some hook
  | deliver _ _ => none

def isRegistration : HookOperation → Bool
  | register .. => true
  | deliver .. => false

def isDuplicate : HookOperation → Bool
  | register _ _ replaced => replaced
  | deliver .. => false

def isStart : HookOperation → Bool
  | register .. => false
  | deliver _ started => started.isSome

/-- The hook that waits for a key after the operations: of those on the key the last one counts. -/
def waiting (ops : List HookOperation) (key : HookKey) : Option Hook :=
  (ops.filter (·.key = key)).getLast?.bind leaves

/-- An operation finds what the operations before it have left waiting. -/
def Accords (before : List HookOperation) : HookOperation → Prop
  | register key _ replaced => replaced = (waiting before key).isSome
  | deliver key started => started = waiting before key

def Legal (ops : List HookOperation) : Prop :=
  ∀ before op after, ops = before ++ op :: after → op.Accords before

/-- The delivery at place `j` starts the hook that the registration at place `i` brought, and no
operation in between is on their key. -/
def HandsOver (ops : List HookOperation) (i j : Nat) : Prop :=
  ∃ key hook replaced, ops[i]? = some (.register key hook replaced) ∧
    ops[j]? = some (.deliver key (some hook)) ∧ i < j ∧
    ∀ k op, i < k → k < j → ops[k]? = some op → op.key ≠ key

/-- How a hook ends whose script has ended so. -/
inductive Ends (key : HookKey) (hook : Hook) : Except String Unit → Except HookFailure Unit → Prop
  | done (h : hook.failure = none) : Ends key hook (.ok ()) (.ok ())
  | fails {cause} (h : hook.failure = some cause) : Ends key hook (.ok ()) (.error ⟨key, cause⟩)
  | breaks {cause} : Ends key hook (.error cause) (.error ⟨key, cause⟩)

mutual

/-- A delivery of the key makes these operations, those of the hook that it starts among them, and
ends so. -/
inductive OfDelivery : HookKey → List HookOperation → Except HookFailure Unit → Prop
  | absent {key} : OfDelivery key [.deliver key none] (.ok ())
  | started {key hook ops ended outcome} (h : OfScript hook.script ops ended)
      (hend : Ends key hook ended outcome) :
      OfDelivery key (.deliver key (some hook) :: ops) outcome

inductive OfAction : HookAction → List HookOperation → Except String Unit → Prop
  | register {key hook replaced} :
      OfAction (.register key hook) [.register key hook replaced] (.ok ())
  | deliver {key ops outcome} (h : OfDelivery key ops outcome) :
      OfAction (.deliver key) ops (outcome.mapError HookFailure.message)
  | succeeds {key success failure ops ops' outcome} (h : OfDelivery key ops (.ok ()))
      (hrest : OfScript success ops' outcome) :
      OfAction (.attempt key success failure) (ops ++ ops') outcome
  | recovers {key success failure ops ops' outcome f} (h : OfDelivery key ops (.error f))
      (hrest : OfScript failure ops' outcome) :
      OfAction (.attempt key success failure) (ops ++ ops') outcome
  | fail {cause} : OfAction (.fail cause) [] (.error cause)

/-- The script makes these operations, up to its first failure, and ends so. -/
inductive OfScript : List HookAction → List HookOperation → Except String Unit → Prop
  | nil : OfScript [] [] (.ok ())
  | cons {action rest ops ops' outcome} (h : OfAction action ops (.ok ()))
      (hrest : OfScript rest ops' outcome) : OfScript (action :: rest) (ops ++ ops') outcome
  | breaks {action rest ops cause} (h : OfAction action ops (.error cause)) :
      OfScript (action :: rest) ops (.error cause)

end

variable {ops : List HookOperation} {op : HookOperation} {key : HookKey} {hook : Hook}

theorem waiting_append (ops : List HookOperation) (op : HookOperation) (key : HookKey) :
    waiting (ops ++ [op]) key = if key = op.key then op.leaves else waiting ops key := by
  by_cases h : key = op.key
  · simp [waiting, h]
  · simp [waiting, h, Ne.symm h]

theorem exists_registration (h : waiting ops key = some hook) :
    ∃ before replaced after, ops = before ++ .register key hook replaced :: after ∧
      ∀ op ∈ after, op.key ≠ key := by
  induction ops using List.reverseRecOn with
  | nil => simp [waiting] at h
  | append_singleton ops op ih =>
    rw [waiting_append] at h
    by_cases hkey : key = op.key
    · rw [if_pos hkey] at h
      cases op with
      | register k found replaced =>
        obtain rfl : found = hook := Option.some.inj h
        obtain rfl : key = k := hkey
        exact ⟨ops, replaced, [], rfl, by simp⟩
      | deliver k started => simp [leaves] at h
    · rw [if_neg hkey] at h
      obtain ⟨before, replaced, after, rfl, hafter⟩ := ih h
      refine ⟨before, replaced, after ++ [op], by simp, ?_⟩
      intro other hother
      rcases List.mem_append.mp hother with hother | hother
      · exact hafter other hother
      · obtain rfl := List.mem_singleton.mp hother
        exact Ne.symm hkey

theorem legal_nil : Legal [] := by
  intro before op after h
  simp at h

theorem Legal.append (h : Legal ops) {op : HookOperation} (hop : op.Accords ops) :
    Legal (ops ++ [op]) := by
  intro before found after heq
  rcases List.eq_nil_or_concat after with rfl | ⟨after, last, rfl⟩
  · obtain ⟨rfl, hlast⟩ := List.append_inj' heq rfl
    obtain rfl := List.singleton_inj.mp hlast
    exact hop
  · have hinit : ops = before ++ found :: after := by
      have heq : ops ++ [op] = (before ++ found :: after) ++ [last] := by simpa using heq
      exact (List.append_inj' heq rfl).1
    exact h before found after hinit

theorem Legal.front {before after : List HookOperation} (h : Legal (before ++ after)) :
    Legal before := by
  intro front op back heq
  exact h front op (back ++ after) (by simp [heq])

theorem Legal.exists_handsOver (h : Legal ops) {j : Nat}
    (hj : ops[j]? = some (.deliver key (some hook))) : ∃ i, HandsOver ops i j := by
  obtain ⟨hlt, hget⟩ := List.getElem?_eq_some_iff.mp hj
  have hsplit : ops = ops.take j ++ .deliver key (some hook) :: ops.drop (j + 1) := by
    rw [← hget, List.getElem_cons_drop, List.take_append_drop]
  have hfound : some hook = waiting (ops.take j) key := h _ _ _ hsplit
  obtain ⟨before, replaced, after, hbefore, hafter⟩ := exists_registration hfound.symm
  have hlen : before.length + (after.length + 1) = j := by
    have := congrArg List.length hbefore
    simp only [List.length_take, List.length_append, List.length_cons] at this
    omega
  have hplace : ∀ k, k < j → ops[k]? = (before ++ .register key hook replaced :: after)[k]? := by
    intro k hk
    rw [← hbefore, List.getElem?_take_of_lt hk]
  refine ⟨before.length, key, hook, replaced, ?_, hj, by omega, ?_⟩
  · rw [hplace _ (by omega)]
    simp
  · intro k other hik hkj hother
    rw [hplace k hkj, List.getElem?_append_right (by omega)] at hother
    obtain ⟨n, hn⟩ : ∃ n, k - before.length = n + 1 := ⟨k - before.length - 1, by omega⟩
    rw [hn, List.getElem?_cons_succ] at hother
    exact hafter other (List.mem_of_getElem? hother)

theorem HandsOver.unique {i j j' : Nat} (h : HandsOver ops i j) (h' : HandsOver ops i j') :
    j = j' := by
  obtain ⟨key, hook, _, hi, hj, hlt, hbetween⟩ := h
  obtain ⟨key', hook', _, hi', hj', hlt', hbetween'⟩ := h'
  obtain ⟨rfl, rfl, rfl⟩ := HookOperation.register.inj (Option.some.inj (hi.symm.trans hi'))
  rcases Nat.lt_trichotomy j j' with hjj | hjj | hjj
  · exact absurd rfl (hbetween' j _ hlt hjj hj)
  · exact hjj
  · exact absurd rfl (hbetween j' _ hlt' hjj hj')

/-! ## A script makes one legal sequence -/

theorem Legal.accords {before after : List HookOperation} (h : Legal (before ++ op :: after)) :
    op.Accords before := h before op after rfl

theorem Legal.parts {before ops' : List HookOperation} (h : Legal (before ++ (ops ++ ops'))) :
    Legal (before ++ ops) ∧ Legal (before ++ ops ++ ops') := by
  rw [← List.append_assoc] at h
  exact ⟨h.front, h⟩

theorem Legal.tail {before : List HookOperation} (h : Legal (before ++ op :: ops)) :
    Legal (before ++ [op] ++ ops) := by
  rwa [List.append_assoc]

theorem Ends.unique {ended : Except String Unit} {outcome outcome' : Except HookFailure Unit}
    (h : Ends key hook ended outcome) (h' : Ends key hook ended outcome') : outcome = outcome' := by
  cases h <;> cases h' <;> simp_all

-- By cases on both derivations. The operations before are the same on both sides, and they tell which
-- hook a delivery starts; all else follows the script.
mutual

theorem ofDelivery_unique {key : HookKey} {before ops ops' : List HookOperation}
    {outcome outcome' : Except HookFailure Unit} (hlegal : Legal (before ++ ops))
    (hlegal' : Legal (before ++ ops')) :
    OfDelivery key ops outcome → OfDelivery key ops' outcome' → ops = ops' ∧ outcome = outcome'
  | .absent, .absent => ⟨rfl, rfl⟩
  | .absent, .started _ _ => nomatch hlegal.accords.trans hlegal'.accords.symm
  | .started _ _, .absent => nomatch hlegal.accords.trans hlegal'.accords.symm
  | .started h hend, .started h' hend' => by
    obtain rfl := Option.some.inj (hlegal.accords.trans hlegal'.accords.symm)
    obtain ⟨hops, hended⟩ := ofScript_unique hlegal.tail hlegal'.tail h h'
    rw [← hended] at hend'
    exact ⟨by rw [hops], hend.unique hend'⟩

theorem ofAction_unique {action : HookAction} {before ops ops' : List HookOperation}
    {outcome outcome' : Except String Unit} (hlegal : Legal (before ++ ops))
    (hlegal' : Legal (before ++ ops')) :
    OfAction action ops outcome → OfAction action ops' outcome' → ops = ops' ∧ outcome = outcome'
  | .register, .register => ⟨by rw [hlegal.accords, hlegal'.accords], rfl⟩
  | .deliver h, .deliver h' => by
    obtain ⟨hops, houtcome⟩ := ofDelivery_unique hlegal hlegal' h h'
    exact ⟨hops, by rw [houtcome]⟩
  | .succeeds h hrest, .succeeds h' hrest' => by
    obtain ⟨hops, _⟩ := ofDelivery_unique hlegal.parts.1 hlegal'.parts.1 h h'
    subst hops
    obtain ⟨hops, houtcome⟩ := ofScript_unique hlegal.parts.2 hlegal'.parts.2 hrest hrest'
    exact ⟨by rw [hops], houtcome⟩
  | .succeeds h _, .recovers h' _ =>
    nomatch (ofDelivery_unique hlegal.parts.1 hlegal'.parts.1 h h').2
  | .recovers h _, .succeeds h' _ =>
    nomatch (ofDelivery_unique hlegal.parts.1 hlegal'.parts.1 h h').2
  | .recovers h hrest, .recovers h' hrest' => by
    obtain ⟨hops, _⟩ := ofDelivery_unique hlegal.parts.1 hlegal'.parts.1 h h'
    subst hops
    obtain ⟨hops, houtcome⟩ := ofScript_unique hlegal.parts.2 hlegal'.parts.2 hrest hrest'
    exact ⟨by rw [hops], houtcome⟩
  | .fail, .fail => ⟨rfl, rfl⟩

theorem ofScript_unique {script : List HookAction} {before ops ops' : List HookOperation}
    {outcome outcome' : Except String Unit} (hlegal : Legal (before ++ ops))
    (hlegal' : Legal (before ++ ops')) :
    OfScript script ops outcome → OfScript script ops' outcome' → ops = ops' ∧ outcome = outcome'
  | .nil, .nil => ⟨rfl, rfl⟩
  | .cons h hrest, .cons h' hrest' => by
    obtain ⟨hops, _⟩ := ofAction_unique hlegal.parts.1 hlegal'.parts.1 h h'
    subst hops
    obtain ⟨hops, houtcome⟩ := ofScript_unique hlegal.parts.2 hlegal'.parts.2 hrest hrest'
    exact ⟨by rw [hops], houtcome⟩
  | .cons h _, .breaks h' => nomatch (ofAction_unique hlegal.parts.1 hlegal' h h').2
  | .breaks h, .cons h' _ => nomatch (ofAction_unique hlegal hlegal'.parts.1 h h').2
  | .breaks h, .breaks h' => ofAction_unique hlegal hlegal' h h'

end

/-- What each operation finds leaves a script no choice. -/
theorem OfScript.unique {script : List HookAction} {ops' : List HookOperation}
    {outcome outcome' : Except String Unit} (h : OfScript script ops outcome)
    (h' : OfScript script ops' outcome') (hlegal : Legal ops) (hlegal' : Legal ops') :
    ops = ops' ∧ outcome = outcome' := by
  have hfront : Legal ([] ++ ops) := hlegal
  have hfront' : Legal ([] ++ ops') := hlegal'
  exact ofScript_unique hfront hfront' h h'

end HookOperation

end JvmTypes
