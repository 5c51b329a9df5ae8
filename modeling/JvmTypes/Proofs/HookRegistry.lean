import JvmTypes.Proofs.HookOperation
import Mathlib.Logic.Relation
/-!
# Runs of the hook registry

A delivery starts the hook of the latest registration under its key that no operation in between has
taken or replaced. Every operation on the waiting hooks is a registration or a removal, whichever
script it comes from and however deep, so a run is told by its log: at each of its points the
registry is what the operations so far make of the empty one.
-/
namespace JvmTypes

namespace HookRegistry

open HookOperation

variable {r : HookRegistry} {key other : HookKey} {hook : Hook} {ops : List HookOperation}

@[simp] theorem pending_register : (r.register key hook).pending =
    r.pending.filter (·.1 ≠ key) ++ [(key, hook)] := rfl
@[simp] theorem log_register : (r.register key hook).log =
    r.log ++ [.register key hook (r.get? key).isSome] := rfl
@[simp] theorem history_register : (r.register key hook).history =
    r.history ++ [.registered key (r.get? key).isSome] := rfl
@[simp] theorem fst_take : (r.take key).1 = r.get? key := rfl
@[simp] theorem pending_take : (r.take key).2.pending = r.pending.filter (·.1 ≠ key) := rfl
@[simp] theorem log_take : (r.take key).2.log = r.log ++ [.deliver key (r.get? key)] := rfl
@[simp] theorem history_take : (r.take key).2.history =
    r.history ++ [(HookOperation.deliver key (r.get? key)).event] := rfl

/-! ## No delivery is cut short -/

def countAll (entries : List (HookKey × Hook)) : Nat := entries.foldr (fun p n => p.2.count + n) 0

theorem potential_eq (r : HookRegistry) : r.potential = countAll r.pending := rfl

@[simp] theorem countAll_nil : countAll [] = 0 := rfl
@[simp] theorem countAll_cons (entry : HookKey × Hook) (entries : List (HookKey × Hook)) :
    countAll (entry :: entries) = entry.2.count + countAll entries := rfl

theorem countAll_append (entries entries' : List (HookKey × Hook)) :
    countAll (entries ++ entries') = countAll entries + countAll entries' := by
  induction entries with
  | nil => simp
  | cons entry entries ih =>
    rw [List.cons_append, countAll_cons, countAll_cons, ih]
    omega

theorem countAll_removed_le (entries : List (HookKey × Hook)) (key : HookKey) :
    countAll (entries.filter (·.1 ≠ key)) ≤ countAll entries := by
  induction entries with
  | nil => exact Nat.le_refl _
  | cons entry entries ih =>
    rw [List.filter_cons]
    split <;> simp only [countAll_cons] <;> omega

theorem countAll_removed_of_find? {entries : List (HookKey × Hook)} {entry : HookKey × Hook}
    (h : entries.find? (·.1 = key) = some entry) :
    entry.2.count + countAll (entries.filter (·.1 ≠ key)) ≤ countAll entries := by
  induction entries with
  | nil => cases h
  | cons first entries ih =>
    by_cases hkey : first.1 = key
    · obtain rfl : first = entry := by simpa [List.find?_cons, hkey] using h
      have hrest := countAll_removed_le entries key
      rw [List.filter_cons_of_neg (by simpa using hkey), countAll_cons]
      omega
    · rw [List.find?_cons_of_neg (by simpa using hkey)] at h
      have hrest := ih h
      rw [List.filter_cons_of_pos (by simpa using hkey), countAll_cons, countAll_cons]
      omega

theorem potential_register_le : (r.register key hook).potential ≤ r.potential + hook.count := by
  have hremoved := countAll_removed_le r.pending key
  rw [potential_eq, potential_eq, pending_register, countAll_append]
  simp only [countAll_cons, countAll_nil]
  omega

theorem potential_take_le : (r.take key).2.potential ≤ r.potential :=
  countAll_removed_le r.pending key

theorem potential_take_of_waiting (h : r.get? key = some hook) :
    hook.count + (r.take key).2.potential ≤ r.potential := by
  obtain ⟨entry, hfind, rfl⟩ := Option.map_eq_some_iff.mp h
  exact countAll_removed_of_find? hfind

section Deliverer

variable {deliver deliver' : HookKey → HookRegistry → HookRegistry × Except HookFailure Unit}

mutual

theorem potential_runAction_le (h : ∀ key r, (deliver key r).1.potential ≤ r.potential) :
    ∀ action r, (runAction deliver action r).1.potential ≤ r.potential + action.count
  | .register key hook, r => potential_register_le
  | .deliver key, r => by
    have hkey := h key r
    rcases hm : deliver key r with ⟨r', f | u⟩ <;> rw [hm] at hkey <;>
      simpa only [runAction, hm, HookAction.count, Nat.add_zero] using hkey
  | .attempt key success failure, r => by
    have hkey := h key r
    rcases hm : deliver key r with ⟨r', f | u⟩ <;> rw [hm] at hkey <;>
      change r'.potential ≤ r.potential at hkey
    · have hrest := potential_runScript_le h failure r'
      simp only [runAction, hm, HookAction.count]
      omega
    · have hrest := potential_runScript_le h success r'
      simp only [runAction, hm, HookAction.count]
      omega
  | .fail cause, r => Nat.le_add_right ..

theorem potential_runScript_le (h : ∀ key r, (deliver key r).1.potential ≤ r.potential) :
    ∀ script r, (runScript deliver script r).1.potential ≤ r.potential + Hook.countScript script
  | [], r => Nat.le_add_right ..
  | action :: rest, r => by
    have hfirst := potential_runAction_le h action r
    rcases hm : runAction deliver action r with ⟨r', cause | u⟩ <;> rw [hm] at hfirst <;>
      change r'.potential ≤ r.potential + action.count at hfirst
    · simp only [runScript, hm, Hook.countScript]
      omega
    · have hrest := potential_runScript_le h rest r'
      simp only [runScript, hm, Hook.countScript]
      omega

end

mutual

theorem runAction_congr (h : ∀ key r, (deliver key r).1.potential ≤ r.potential) {bound : Nat}
    (heq : ∀ key r, r.potential ≤ bound → deliver key r = deliver' key r) :
    ∀ action r, r.potential + action.count ≤ bound →
      runAction deliver action r = runAction deliver' action r
  | .register key hook, r, _ => rfl
  | .deliver key, r, hr => by
    have hkey := heq key r (by omega)
    simp only [runAction, ← hkey]
  | .attempt key success failure, r, hr => by
    simp only [HookAction.count] at hr
    have hkey := heq key r (by omega)
    have hle := h key r
    rcases hm : deliver key r with ⟨r', f | u⟩ <;> rw [hm] at hle <;>
      change r'.potential ≤ r.potential at hle <;> simp only [runAction, ← hkey, hm]
    · exact runScript_congr h heq failure r' (by omega)
    · exact runScript_congr h heq success r' (by omega)
  | .fail cause, r, _ => rfl

theorem runScript_congr (h : ∀ key r, (deliver key r).1.potential ≤ r.potential) {bound : Nat}
    (heq : ∀ key r, r.potential ≤ bound → deliver key r = deliver' key r) :
    ∀ script r, r.potential + Hook.countScript script ≤ bound →
      runScript deliver script r = runScript deliver' script r
  | [], r, _ => rfl
  | action :: rest, r, hr => by
    simp only [Hook.countScript] at hr
    have hfirst := runAction_congr h heq action r (by omega)
    have hle := potential_runAction_le h action r
    rcases hm : runAction deliver action r with ⟨r', cause | u⟩ <;> rw [hm] at hle <;>
      change r'.potential ≤ r.potential + action.count at hle <;>
      simp only [runScript, ← hfirst, hm]
    exact runScript_congr h heq rest r' (by omega)

end

end Deliverer

theorem fst_conclude (hook : Hook) (outcome : HookRegistry × Except String Unit) :
    (conclude key hook outcome).1 = outcome.1 := by
  rcases outcome with ⟨r, cause | u⟩
  · rfl
  · rw [conclude]
    cases hook.failure <;> rfl

theorem count_eq (hook : Hook) : hook.count = 1 + Hook.countScript hook.script := by
  cases hook
  rfl

theorem deliverWithin_succ (hooks : Nat) (key : HookKey) (r : HookRegistry) :
    deliverWithin (hooks + 1) key r =
      match r.get? key with
      | none => ((r.take key).2, .ok ())
      | some hook =>
        conclude key hook (runScript (deliverWithin hooks) hook.script (r.take key).2) := by
  rw [deliverWithin]
  rcases ht : r.take key with ⟨_ | hook, r'⟩ <;> rw [← fst_take, ht]

theorem potential_deliverWithin_le (hooks : Nat) (key : HookKey) (r : HookRegistry) :
    (deliverWithin hooks key r).1.potential ≤ r.potential := by
  induction hooks generalizing key r with
  | zero => exact Nat.le_refl _
  | succ hooks ih =>
    rw [deliverWithin_succ]
    cases hget : r.get? key with
    | none => exact potential_take_le
    | some hook =>
      have htake := potential_take_of_waiting hget
      have hscript := potential_runScript_le ih hook.script (r.take key).2
      have hcount := count_eq hook
      simp only [fst_conclude]
      omega

/-- As soon as the bound allows for all hooks that may be started it does not matter. -/
theorem deliverWithin_eq {m n : Nat} {key : HookKey} {r : HookRegistry} (hm : r.potential < m)
    (hn : r.potential < n) : deliverWithin m key r = deliverWithin n key r := by
  induction m generalizing n key r with
  | zero => omega
  | succ m ih =>
    obtain ⟨n, rfl⟩ : ∃ k, n = k + 1 := ⟨n - 1, by omega⟩
    rw [deliverWithin_succ, deliverWithin_succ]
    cases hget : r.get? key with
    | none => rfl
    | some hook =>
      have htake := potential_take_of_waiting hget
      have hcount := count_eq hook
      have hscript : runScript (deliverWithin m) hook.script (r.take key).2 =
          runScript (deliverWithin n) hook.script (r.take key).2 :=
        runScript_congr (potential_deliverWithin_le m)
          (fun key r' hr' => ih (by omega) (by omega)) hook.script (r.take key).2
          (Nat.le_refl _)
      simp only [hscript]

theorem deliver_eq (r : HookRegistry) (key : HookKey) :
    r.deliver key =
      match r.get? key with
      | none => ((r.take key).2, .ok ())
      | some hook => conclude key hook (run hook.script (r.take key).2) := by
  rw [deliver, deliverWithin_succ]
  cases hget : r.get? key with
  | none => rfl
  | some hook =>
    have htake := potential_take_of_waiting hget
    have hcount := count_eq hook
    have hscript : runScript (deliverWithin r.potential) hook.script (r.take key).2 =
        run hook.script (r.take key).2 :=
      runScript_congr (potential_deliverWithin_le _)
        (fun key r' hr' => deliverWithin_eq (by omega) (by omega)) hook.script (r.take key).2
        (Nat.le_refl _)
    simp only [hscript]

/-! ## Runs as sequences of operations -/

/-- What touches the waiting hooks. -/
inductive Step (r : HookRegistry) : HookRegistry → Prop
  | register (key : HookKey) (hook : Hook) : Step r (r.register key hook)
  | take (key : HookKey) : Step r (r.take key).2

def Steps : HookRegistry → HookRegistry → Prop := Relation.ReflTransGen Step

/-- The operations lead from one registry to another, which has them in its log. -/
structure Leads (r : HookRegistry) (ops : List HookOperation) (r' : HookRegistry) : Prop where
  steps : Steps r r'
  log : r'.log = r.log ++ ops

theorem leads_nil (r : HookRegistry) : Leads r [] r :=
  ⟨Relation.ReflTransGen.refl, (List.append_nil _).symm⟩

theorem leads_register (r : HookRegistry) (key : HookKey) (hook : Hook) :
    Leads r [.register key hook (r.get? key).isSome] (r.register key hook) :=
  ⟨.single (.register key hook), log_register⟩

theorem leads_take (r : HookRegistry) (key : HookKey) :
    Leads r [.deliver key (r.get? key)] (r.take key).2 :=
  ⟨.single (.take key), log_take⟩

theorem Leads.trans {r' r'' : HookRegistry} {ops' : List HookOperation} (h : Leads r ops r')
    (h' : Leads r' ops' r'') : Leads r (ops ++ ops') r'' :=
  ⟨Relation.ReflTransGen.trans h.steps h'.steps, by rw [h'.log, h.log, List.append_assoc]⟩

section Deliverer

variable {deliver : HookKey → HookRegistry → HookRegistry × Except HookFailure Unit}

-- By induction on the script. It is the bound that the deliverer keeps to which carries it: what an
-- action leaves waiting and the hooks in the rest of the script are no more than there were before.
mutual

theorem leads_runAction (h : ∀ key r, (deliver key r).1.potential ≤ r.potential) {bound : Nat}
    (hdeliver : ∀ key r, r.potential ≤ bound →
      ∃ ops, OfDelivery key ops (deliver key r).2 ∧ Leads r ops (deliver key r).1) :
    ∀ action r, r.potential + action.count ≤ bound →
      ∃ ops, OfAction action ops (runAction deliver action r).2 ∧
        Leads r ops (runAction deliver action r).1
  | .register key hook, r, _ => ⟨_, .register, leads_register r key hook⟩
  | .deliver key, r, hr => by
    obtain ⟨ops, hops, hleads⟩ := hdeliver key r (by omega)
    have hmade := OfAction.deliver hops
    rcases hm : deliver key r with ⟨r', f | u⟩ <;> rw [hm] at hmade hleads <;>
      simp only [runAction, hm]
    · exact ⟨ops, hmade, hleads⟩
    · exact ⟨ops, hmade, hleads⟩
  | .attempt key success failure, r, hr => by
    simp only [HookAction.count] at hr
    obtain ⟨ops, hops, hleads⟩ := hdeliver key r (by omega)
    have hkey := h key r
    rcases hm : deliver key r with ⟨r', f | u⟩ <;> rw [hm] at hops hleads hkey <;>
      change r'.potential ≤ r.potential at hkey <;> simp only [runAction, hm]
    · obtain ⟨ops', hops', hleads'⟩ := leads_runScript h hdeliver failure r' (by omega)
      exact ⟨ops ++ ops', .recovers hops hops', hleads.trans hleads'⟩
    · obtain ⟨ops', hops', hleads'⟩ := leads_runScript h hdeliver success r' (by omega)
      exact ⟨ops ++ ops', .succeeds hops hops', hleads.trans hleads'⟩
  | .fail cause, r, _ => ⟨[], .fail, leads_nil r⟩

theorem leads_runScript (h : ∀ key r, (deliver key r).1.potential ≤ r.potential) {bound : Nat}
    (hdeliver : ∀ key r, r.potential ≤ bound →
      ∃ ops, OfDelivery key ops (deliver key r).2 ∧ Leads r ops (deliver key r).1) :
    ∀ script r, r.potential + Hook.countScript script ≤ bound →
      ∃ ops, OfScript script ops (runScript deliver script r).2 ∧
        Leads r ops (runScript deliver script r).1
  | [], r, _ => ⟨[], .nil, leads_nil r⟩
  | action :: rest, r, hr => by
    simp only [Hook.countScript] at hr
    obtain ⟨ops, hops, hleads⟩ := leads_runAction h hdeliver action r (by omega)
    have hfirst := potential_runAction_le h action r
    rcases hm : runAction deliver action r with ⟨r', cause | u⟩ <;>
      rw [hm] at hops hleads hfirst <;>
      change r'.potential ≤ r.potential + action.count at hfirst <;> simp only [runScript, hm]
    · exact ⟨ops, .breaks hops, hleads⟩
    · obtain ⟨ops', hops', hleads'⟩ := leads_runScript h hdeliver rest r' (by omega)
      exact ⟨ops ++ ops', .cons hops hops', hleads.trans hleads'⟩

end

end Deliverer

theorem ends_conclude (hook : Hook) (outcome : HookRegistry × Except String Unit) :
    Ends key hook outcome.2 (conclude key hook outcome).2 := by
  rcases outcome with ⟨r, cause | u⟩
  · exact .breaks
  · rw [conclude]
    cases hf : hook.failure with
    | none => exact .done hf
    | some cause => exact .fails hf

theorem leads_deliverWithin {hooks : Nat} {key : HookKey} {r : HookRegistry}
    (hr : r.potential < hooks) :
    ∃ ops, OfDelivery key ops (deliverWithin hooks key r).2 ∧
      Leads r ops (deliverWithin hooks key r).1 := by
  induction hooks generalizing key r with
  | zero => omega
  | succ hooks ih =>
    have htaken := leads_take r key
    rw [deliverWithin_succ]
    cases hget : r.get? key with
    | none =>
      rw [hget] at htaken
      exact ⟨_, .absent, htaken⟩
    | some hook =>
      rw [hget] at htaken
      have htake := potential_take_of_waiting hget
      have hcount := count_eq hook
      obtain ⟨ops, hops, hleads⟩ := leads_runScript (potential_deliverWithin_le hooks)
        (fun key r' hr' => ih (by omega)) hook.script (r.take key).2 (Nat.le_refl _)
      refine ⟨.deliver key (some hook) :: ops, .started hops (ends_conclude hook _), ?_⟩
      simp only [fst_conclude]
      exact htaken.trans hleads

theorem leads_run (script : List HookAction) (r : HookRegistry) :
    ∃ ops, OfScript script ops (run script r).2 ∧ Leads r ops (run script r).1 :=
  leads_runScript (fun key r => potential_deliverWithin_le _ key r)
    (fun _ _ _ => leads_deliverWithin (Nat.lt_succ_self _)) script r (Nat.le_refl _)

def perform (r : HookRegistry) : HookOperation → HookRegistry
  | .register key hook _ => r.register key hook
  | .deliver key _ => (r.take key).2

def replay (ops : List HookOperation) : HookRegistry := ops.foldl perform empty

theorem replay_append (ops : List HookOperation) (op : HookOperation) :
    replay (ops ++ [op]) = (replay ops).perform op := by
  simp [replay]

/-- The registry is the one after the operations. -/
structure Tracks (ops : List HookOperation) (r : HookRegistry) : Prop where
  log : r.log = ops
  history : r.history = ops.map HookOperation.event
  waiting : ∀ key, r.get? key = waiting ops key
  distinct : (r.pending.map (·.1)).Nodup
  balance : ops.countP isRegistration = ops.countP isStart + ops.countP isDuplicate + r.size

theorem find?_removed (entries : List (HookKey × Hook)) (key other : HookKey) :
    (entries.filter (·.1 ≠ key)).find? (·.1 = other) =
      if other = key then none else entries.find? (·.1 = other) := by
  rw [List.find?_filter]
  by_cases h : other = key
  · subst h
    simp
  · rw [if_neg h]
    congr 1
    funext entry
    by_cases hentry : entry.1 = other
    · simp [hentry, h]
    · simp [hentry]

theorem get?_take (r : HookRegistry) (key other : HookKey) :
    (r.take key).2.get? other = if other = key then none else r.get? other := by
  rw [get?, pending_take, find?_removed]
  split <;> rfl

theorem get?_register (r : HookRegistry) (key other : HookKey) (hook : Hook) :
    (r.register key hook).get? other = if other = key then some hook else r.get? other := by
  rw [get?, pending_register, List.find?_append, find?_removed]
  by_cases h : other = key
  · subst h
    simp
  · simp [h, Ne.symm h, get?]

theorem nodup_removed {entries : List (HookKey × Hook)} (h : (entries.map (·.1)).Nodup)
    (key : HookKey) : ((entries.filter (·.1 ≠ key)).map (·.1)).Nodup :=
  h.sublist (List.filter_sublist.map _)

theorem length_removed {entries : List (HookKey × Hook)} (h : (entries.map (·.1)).Nodup)
    (key : HookKey) :
    entries.length = (entries.filter (·.1 ≠ key)).length +
      if (entries.find? (·.1 = key)).isSome then 1 else 0 := by
  induction entries with
  | nil => rfl
  | cons entry entries ih =>
    obtain ⟨hnew, hrest⟩ := List.nodup_cons.mp h
    have ih := ih hrest
    by_cases hkey : entry.1 = key
    · have hkeep : entries.filter (fun other => !decide (other.1 = key)) = entries := by
        rw [List.filter_eq_self]
        intro other hother
        have hother : other.1 ≠ key := fun hsame =>
          hnew (List.mem_map.mpr ⟨other, hother, hsame.trans hkey.symm⟩)
        simpa using hother
      simp [hkey, hkeep]
    · simp only [ne_eq, decide_not] at ih
      simp only [ne_eq, decide_not, List.filter_cons, List.find?_cons, hkey, decide_false,
        Bool.not_false, if_true, List.length_cons]
      omega

theorem tracks_empty : Tracks [] empty :=
  ⟨rfl, rfl, fun _ => rfl, .nil, rfl⟩

theorem Tracks.isSome_find? (h : Tracks ops r) (key : HookKey) :
    (r.pending.find? (·.1 = key)).isSome = (HookOperation.waiting ops key).isSome := by
  rw [← h.waiting key, get?, Option.isSome_map]

theorem Tracks.register (h : Tracks ops r) (key : HookKey) (hook : Hook) :
    Tracks (ops ++ [.register key hook (HookOperation.waiting ops key).isSome])
      (r.register key hook) := by
  refine ⟨?_, ?_, ?_, ?_, ?_⟩
  · rw [log_register, h.log, h.waiting]
  · rw [history_register, h.history, h.waiting, List.map_append]
    rfl
  · intro other
    rw [get?_register, waiting_append, h.waiting]
    rfl
  · rw [pending_register, List.map_append, List.nodup_append]
    refine ⟨nodup_removed h.distinct key, by simp, ?_⟩
    intro other hother new hnew
    obtain rfl : new = key := by simpa using hnew
    obtain ⟨entry, hentry, rfl⟩ := List.mem_map.mp hother
    simpa using (List.mem_filter.mp hentry).2
  · have hbalance := h.balance
    have hsize := length_removed h.distinct key
    rw [h.isSome_find?] at hsize
    rw [size] at hbalance ⊢
    rw [pending_register]
    cases hwaiting : (HookOperation.waiting ops key).isSome <;> rw [hwaiting] at hsize <;>
      simp only [List.countP_append, List.countP_singleton, isRegistration, isStart, isDuplicate,
        List.length_append, List.length_singleton, if_true, Bool.false_eq_true, if_false]
        at hsize ⊢ <;> omega

theorem Tracks.take (h : Tracks ops r) (key : HookKey) :
    Tracks (ops ++ [.deliver key (HookOperation.waiting ops key)]) (r.take key).2 := by
  refine ⟨?_, ?_, ?_, nodup_removed h.distinct key, ?_⟩
  · rw [log_take, h.log, h.waiting]
  · rw [history_take, h.history, h.waiting, List.map_append]
    rfl
  · intro other
    rw [get?_take, waiting_append, h.waiting]
    rfl
  · have hbalance := h.balance
    have hsize := length_removed h.distinct key
    rw [h.isSome_find?] at hsize
    rw [size] at hbalance ⊢
    rw [pending_take]
    cases hwaiting : (HookOperation.waiting ops key).isSome <;> rw [hwaiting] at hsize <;>
      simp only [List.countP_append, List.countP_singleton, isRegistration, isStart, isDuplicate,
        hwaiting, if_true, Bool.false_eq_true, if_false] at hsize ⊢ <;> omega

theorem tracks_replay (h : Legal ops) : Tracks ops (replay ops) := by
  induction ops using List.reverseRecOn with
  | nil => exact tracks_empty
  | append_singleton ops op ih =>
    have htracks := ih h.front
    have hop : op.Accords ops := h ops op [] rfl
    rw [replay_append]
    cases op with
    | register key hook replaced =>
      obtain rfl : replaced = _ := hop
      exact htracks.register key hook
    | deliver key started =>
      obtain rfl : started = _ := hop
      exact htracks.take key

/-- A run from the empty registry is told by its log. -/
theorem replay_of_steps (h : Steps empty r) : Legal r.log ∧ replay r.log = r := by
  induction h with
  | refl => exact ⟨legal_nil, rfl⟩
  | @tail r r' _ hstep ih =>
    obtain ⟨hlegal, hreplay⟩ := ih
    have htracks := tracks_replay hlegal
    rw [hreplay] at htracks
    cases hstep with
    | register key hook =>
      rw [log_register, htracks.waiting]
      refine ⟨hlegal.append rfl, ?_⟩
      rw [replay_append, hreplay]
      rfl
    | take key =>
      rw [log_take, htracks.waiting]
      refine ⟨hlegal.append rfl, ?_⟩
      rw [replay_append, hreplay]
      rfl

/-- What a run of any script does, at each point of it. The script and the hooks that it starts make
the operations of the log and no others. Deliveries start the hook of the latest registration under
their key, unless an operation in between has taken or replaced it; no registration is started
twice; and all registrations are accounted for. -/
theorem deliveries_of_run (script : List HookAction) :
    let r := (empty.run script).1
    OfScript script r.log (empty.run script).2 ∧
    (∀ ops outcome, OfScript script ops outcome → Legal ops →
      ops = r.log ∧ outcome = (empty.run script).2) ∧
    replay r.log = r ∧ r.history = r.log.map HookOperation.event ∧
    (∀ before after, r.log = before ++ after →
      (replay before).log = before ∧
      before.countP isRegistration =
        before.countP isStart + before.countP isDuplicate + (replay before).size ∧
      ∀ key, (replay before).deliver key =
        match waiting before key with
        | none => (((replay before).take key).2, .ok ())
        | some hook => conclude key hook (((replay before).take key).2.run hook.script)) ∧
    (∀ before op after, r.log = before ++ op :: after → op.Accords before) ∧
    (∀ j key hook, r.log[j]? = some (.deliver key (some hook)) → ∃ i, HandsOver r.log i j) ∧
    ∀ i j j', HandsOver r.log i j → HandsOver r.log i j' → j = j' := by
  intro r
  obtain ⟨ops, hmade, hleads⟩ := leads_run script empty
  obtain rfl : r.log = ops := hleads.log
  obtain ⟨hlegal, hreplay⟩ := replay_of_steps hleads.steps
  have hhistory : r.history = r.log.map HookOperation.event := by
    rw [← (tracks_replay hlegal).history, hreplay]
  refine ⟨hmade, fun ops outcome hops hops' => hops.unique hmade hops' hlegal,
    hreplay, hhistory, ?_, hlegal, fun j key hook hj => hlegal.exists_handsOver hj,
    fun i j j' h h' => h.unique h'⟩
  intro before after hlog
  have htracks := tracks_replay (Legal.front (hlog ▸ hlegal))
  refine ⟨htracks.log, htracks.balance, ?_⟩
  intro key
  rw [deliver_eq, htracks.waiting]

/-- A hook that registers another one under its own key, starts it and goes on after its failure. -/
example :
    let key : HookKey := ⟨⟨"p.Generated", none⟩, 1⟩
    let inner : Hook := .mk "inner" [] (some "boom")
    let outer : Hook := .mk "outer" [.register key inner, .attempt key [] [.deliver key]] none
    (empty.run [.register key outer, .deliver key]).1.history =
      [.registered key false, .started key "outer", .registered key false,
        .started key "inner", .absent key] := by
  rfl

end HookRegistry

end JvmTypes
