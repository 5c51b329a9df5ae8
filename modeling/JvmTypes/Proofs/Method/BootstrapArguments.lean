import JvmTypes.Proofs.Members.Regularity
import JvmTypes.Proofs.Method.BootstrapShapes
/-!
# Arguments of bootstrap methods

How static arguments are laid out on the parameters behind the third: each has a parameter of its
own, or goes into an array of objects in last place. The check takes every list that can be laid
out, but it stops at the last parameter, so that without an array arguments may be left over.
-/
namespace JvmTypes

namespace BootstrapArgument

theorem bindsTo_objects (s : Store) (a : BootstrapArgument) :
    a.bindsTo s Bootstrap.objects = false := by
  cases a with
  | constant c => cases c <;> rfl
  | type t => rfl
  | methodHandle owner name descriptor => rfl
  | methodType descriptor => rfl

theorem forM_check_eq_ok {as : List BootstrapArgument} (h : ∀ a ∈ as, a.check = .ok ()) :
    as.forM BootstrapArgument.check = .ok () := by
  induction as with
  | nil => rfl
  | cons a as ih =>
    obtain ⟨ha, has⟩ := List.forall_mem_cons.mp h
    change (a.check >>= fun _ => as.forM BootstrapArgument.check) = .ok ()
    rw [ha]
    exact ih has

end BootstrapArgument

namespace Bootstrap

abbrev Bound (s : Store) : List BootstrapArgument → List Erased → Prop :=
  List.Forall₂ fun a p => a.bindsTo s p = true

/-- Every argument has a place: a parameter of its own, or the array that ends the parameters. -/
inductive LaidOut (s : Store) (ps : List Erased) (as : List BootstrapArgument) : Prop
  | exactly (hlast : ps.getLast? ≠ some objects) (h : Bound s as ps) : LaidOut s ps as
  | gathered {fixed : List Erased} {own rest : List BootstrapArgument}
      (hps : ps = fixed ++ [objects]) (has : as = own ++ rest) (h : Bound s own fixed) :
      LaidOut s ps as

/-- All parameters are bound and arguments are left over. -/
def Overruns (s : Store) (ps : List Erased) (as : List BootstrapArgument) : Prop :=
  ∃ own extra, as = own ++ extra ∧ extra ≠ [] ∧ Bound s own ps

/-- The walk along both lists that the check takes: it ends with the parameters, or at the array. -/
inductive Fits (s : Store) : List Erased → List BootstrapArgument → Prop
  | spent {as : List BootstrapArgument} : Fits s [] as
  | array {as : List BootstrapArgument} : Fits s [objects] as
  | bound {p : Erased} {ps : List Erased} {a : BootstrapArgument} {as : List BootstrapArgument}
      (ha : a.bindsTo s p = true) (h : Fits s ps as) : Fits s (p :: ps) (a :: as)

variable {s : Store} {ps : List Erased} {as : List BootstrapArgument}

theorem endsWith_iff {p : Erased} :
    (ps.isEmpty && p.isObjectArray) = true ↔ p = objects ∧ ps = [] := by
  rw [Bool.and_eq_true, isObjectArray_iff, List.isEmpty_iff, and_comm]

theorem binds_iff_fits : binds s ps as = true ↔ Fits s ps as := by
  induction ps generalizing as with
  | nil => exact ⟨fun _ => .spent, fun _ => rfl⟩
  | cons p ps ih =>
    cases as with
    | nil =>
      rw [binds, endsWith_iff]
      constructor
      · rintro ⟨rfl, rfl⟩
        exact .array
      · rintro ⟨⟩
        exact ⟨rfl, rfl⟩
    | cons a as =>
      rw [binds]
      by_cases ha : a.bindsTo s p = true
      · rw [if_pos ha, ih]
        constructor
        · exact .bound ha
        · intro h
          cases h with
          | array => simp [BootstrapArgument.bindsTo_objects] at ha
          | bound _ h => exact h
      · rw [if_neg ha, endsWith_iff]
        constructor
        · rintro ⟨rfl, rfl⟩
          exact .array
        · intro h
          cases h with
          | array => exact ⟨rfl, rfl⟩
          | bound hbound _ => exact absurd hbound ha

theorem objects_not_mem_of_bound (h : Bound s as ps) : objects ∉ ps := by
  induction h with
  | nil => exact List.not_mem_nil
  | @cons a p as ps ha _ ih =>
    intro hmem
    rcases List.mem_cons.mp hmem with rfl | hmem
    · simp [BootstrapArgument.bindsTo_objects] at ha
    · exact ih hmem

theorem Bound.laidOut (h : Bound s as ps) : LaidOut s ps as :=
  .exactly (fun hlast => objects_not_mem_of_bound h (List.mem_of_getLast? hlast)) h

theorem Overruns.not_laidOut (h : Overruns s ps as) : ¬ LaidOut s ps as := by
  obtain ⟨own, extra, rfl, hextra, hbound⟩ := h
  rintro (⟨_, hall⟩ | ⟨rfl, _, _⟩)
  · have hlength := hall.length_eq.trans hbound.length_eq.symm
    rw [List.length_append] at hlength
    exact hextra (List.length_eq_zero_iff.mp (by omega))
  · exact objects_not_mem_of_bound hbound (by simp)

theorem Fits.prepend {front : List Erased} {own : List BootstrapArgument}
    (hbound : Bound s own front) (h : Fits s ps as) : Fits s (front ++ ps) (own ++ as) := by
  induction hbound with
  | nil => exact h
  | cons ha _ ih => exact .bound ha ih

theorem Fits.split (h : Fits s ps as) : ∃ front own rest, (ps = front ∨ ps = front ++ [objects]) ∧
    as = own ++ rest ∧ Bound s own front := by
  induction h with
  | @spent as => exact ⟨[], [], as, Or.inl rfl, rfl, .nil⟩
  | @array as => exact ⟨[], [], as, Or.inr rfl, rfl, .nil⟩
  | @bound p _ a _ ha _ ih =>
    obtain ⟨front, own, rest, hps, rfl, hbound⟩ := ih
    exact ⟨p :: front, a :: own, rest, hps.imp (congrArg _) (congrArg _), rfl, .cons ha hbound⟩

theorem fits_iff : Fits s ps as ↔ LaidOut s ps as ∨ Overruns s ps as := by
  constructor
  · intro h
    obtain ⟨front, own, rest, rfl | rfl, rfl, hbound⟩ := h.split
    · by_cases hrest : rest = []
      · rw [hrest, List.append_nil]
        exact Or.inl hbound.laidOut
      · exact Or.inr ⟨own, rest, rfl, hrest, hbound⟩
    · exact Or.inl (.gathered rfl rfl hbound)
  · rintro ((⟨_, hbound⟩ | ⟨rfl, rfl, hbound⟩) | ⟨own, extra, rfl, _, hbound⟩)
    · have hspent : Fits s (ps ++ []) (as ++ []) := .prepend hbound .spent
      rwa [List.append_nil, List.append_nil] at hspent
    · exact .prepend hbound .array
    · have hspent : Fits s (ps ++ []) (own ++ extra) := .prepend hbound .spent
      rwa [List.append_nil] at hspent

/-- What a bootstrap method with these parameters has a place for: with fewer than four parameters
nothing, or whatever the array that ends them takes. -/
inductive Accepts (s : Store) (ps : List Erased) (as : List BootstrapArgument) : Prop
  | short (hps : ps.length < 4) (h : as = [] ∨ ps.getLast? = some objects) : Accepts s ps as
  | long (hps : 4 ≤ ps.length) (h : LaidOut s (ps.drop 3) as) : Accepts s ps as

/-- Arguments are left over behind the parameters that take constants. -/
def LeavesOver (s : Store) (ps : List Erased) (as : List BootstrapArgument) : Prop :=
  4 ≤ ps.length ∧ Overruns s (ps.drop 3) as

theorem accepts_of_short (hps : ps.length < 4) :
    Accepts s ps as ↔ as = [] ∨ ps.getLast? = some objects := by
  constructor
  · rintro (⟨_, h⟩ | ⟨hlong, _⟩)
    · exact h
    · omega
  · exact .short hps

theorem accepts_of_long (hps : 4 ≤ ps.length) : Accepts s ps as ↔ LaidOut s (ps.drop 3) as := by
  constructor
  · rintro (⟨hshort, _⟩ | ⟨_, h⟩)
    · omega
    · exact h
  · exact .long hps

theorem LeavesOver.not_accepts (h : LeavesOver s ps as) : ¬ Accepts s ps as := by
  rw [accepts_of_long h.1]
  exact h.2.not_laidOut

theorem getLast?_isObjectArray :
    (ps.getLast?.map Erased.isObjectArray).getD false = true ↔ ps.getLast? = some objects := by
  cases ps.getLast? with
  | none => simp
  | some p => simp [isObjectArray_iff]

def takesArguments (s : Store) (ps : List Erased) (as : List BootstrapArgument) : Bool :=
  if ps.length < 4 then as.isEmpty || (ps.getLast?.map Erased.isObjectArray).getD false
  else binds s (ps.drop 3) as

theorem takesArguments_iff :
    takesArguments s ps as = true ↔ Accepts s ps as ∨ LeavesOver s ps as := by
  rw [takesArguments]
  by_cases hshort : ps.length < 4
  · have hnone : ¬ LeavesOver s ps as := fun h => absurd h.1 (not_le.mpr hshort)
    rw [if_pos hshort, Bool.or_eq_true, List.isEmpty_iff, getLast?_isObjectArray,
      or_iff_left hnone, accepts_of_short hshort]
  · have hlong : 4 ≤ ps.length := not_lt.mp hshort
    rw [if_neg hshort, binds_iff_fits, fits_iff, accepts_of_long hlong, LeavesOver,
      and_iff_right hlong]

end Bootstrap

namespace Method

variable {s : Store} {m : Method} {as : List BootstrapArgument}

theorem exists_erasures_of_isBootstrap (h : m.isBootstrap s = .ok true) :
    ∃ ps, Shape.erasures m.parameterTypes = .ok ps := by
  rw [isBootstrap] at h
  obtain ⟨r, _, h⟩ := Shape.exists_of_bind_eq_ok h
  by_cases hlinks : m.linksCallSite s r = true
  · rw [if_pos hlinks] at h
    obtain ⟨ps, hps, _⟩ := Shape.exists_of_bind_eq_ok h
    exact ⟨ps, hps⟩
  · rw [if_neg hlinks] at h
    cases h

theorem isBootstrapWith_eq (hm : m.isBootstrap s = .ok true) {ps : List Erased}
    (hps : Shape.erasures m.parameterTypes = .ok ps) (has : ∀ a ∈ as, a.check = .ok ()) :
    m.isBootstrapWith s as = .ok (Bootstrap.takesArguments s ps as) := by
  rw [isBootstrapWith, hm, hps]
  change (as.forM BootstrapArgument.check >>= fun _ => if ps.length < 4 then Except.ok _
    else Except.ok _) = _
  rw [BootstrapArgument.forM_check_eq_ok has, Bootstrap.takesArguments]
  change (if ps.length < 4 then Except.ok _ else Except.ok _) = _
  split
  · rfl
  · rfl

/-- The check takes the lists that can be laid out on the parameters, and those that leave arguments
over. So it is right about all but the latter. -/
theorem isBootstrapWith_iff_accepts (hm : m.isBootstrap s = .ok true)
    (has : ∀ a ∈ as, a.check = .ok ()) :
    ∃ ps b, Shape.erasures m.parameterTypes = .ok ps ∧ m.isBootstrapWith s as = .ok b ∧
      (b = true ↔ Bootstrap.Accepts s ps as ∨ Bootstrap.LeavesOver s ps as) ∧
      ((b = true ↔ Bootstrap.Accepts s ps as) ↔ ¬ Bootstrap.LeavesOver s ps as) := by
  obtain ⟨ps, hps⟩ := exists_erasures_of_isBootstrap hm
  refine ⟨ps, _, hps, isBootstrapWith_eq hm hps has, Bootstrap.takesArguments_iff, ?_⟩
  rw [Bootstrap.takesArguments_iff]
  constructor
  · intro hclaim hover
    exact hover.not_accepts (hclaim.mp (Or.inr hover))
  · intro hover
    exact or_iff_left hover

/-- `link(Lookup, String, MethodType, int, Object[])` and an `int` for its fourth parameter, a class
and a method type for the array. -/
def arrayArguments : List BootstrapArgument :=
  [.constant (.int 1), .type .object, .methodType "()V"]

theorem link_accepts_array_arguments :
    (ofDecl .object linkWithConstants).isBootstrap .initial = .ok true ∧
    (∀ a ∈ arrayArguments, a.check = .ok ()) ∧
    Bootstrap.Accepts .initial
      [.cls .lookup, .cls .string, .cls .methodType, .primitive .int, .array .object]
      arrayArguments ∧
    (ofDecl .object linkWithConstants).isBootstrapWith .initial arrayArguments = .ok true := by
  have hm : (ofDecl .object linkWithConstants).isBootstrap .initial = .ok true := rfl
  have hlegal : ∀ a ∈ arrayArguments, a.check = .ok () := by decide
  have hint : Bootstrap.Bound .initial [.constant (.int 1)] [.primitive .int] :=
    .cons (by decide) .nil
  have hends : [.primitive .int, .array .object] = [.primitive .int] ++ [Bootstrap.objects] := rfl
  have haccepts : Bootstrap.Accepts .initial
      [.cls .lookup, .cls .string, .cls .methodType, .primitive .int, .array .object]
      arrayArguments :=
    .long (by decide) (.gathered hends rfl hint)
  obtain ⟨ps, b, hps, hb, hexact, _⟩ := isBootstrapWith_iff_accepts hm hlegal
  obtain rfl := Except.ok.inj hps
  obtain rfl : b = true := hexact.mpr (Or.inl haccepts)
  exact ⟨hm, hlegal, haccepts, hb⟩

def linkWithInt : MethodDecl where
  internalName := "link"
  flags := .ofBits [AccessFlags.staticBit]
  returnType := .ofClass .callSite
  parameters := [⟨.ofClass .lookup, none, none⟩, ⟨.ofClass .string, none, none⟩,
    ⟨.ofClass .methodType, none, none⟩, ⟨.plain (.primitive .int), none, none⟩]

/-- Two constants for one parameter are taken, and there is no place for the second. -/
theorem second_constant_is_left_over :
    (ofDecl .object linkWithInt).isBootstrap .initial = .ok true ∧
    (∀ a ∈ [BootstrapArgument.constant (.int 1), .constant (.int 2)], a.check = .ok ()) ∧
    Shape.erasures (ofDecl .object linkWithInt).parameterTypes =
      .ok [.cls .lookup, .cls .string, .cls .methodType, .primitive .int] ∧
    ¬ Bootstrap.Accepts .initial [.cls .lookup, .cls .string, .cls .methodType, .primitive .int]
      [.constant (.int 1), .constant (.int 2)] ∧
    (ofDecl .object linkWithInt).isBootstrapWith .initial
      [.constant (.int 1), .constant (.int 2)] = .ok true := by
  have hint : Bootstrap.Bound .initial [.constant (.int 1)] [.primitive .int] :=
    .cons (by decide) .nil
  have hover : Bootstrap.LeavesOver .initial
      [.cls .lookup, .cls .string, .cls .methodType, .primitive .int]
      [.constant (.int 1), .constant (.int 2)] :=
    ⟨by decide, [.constant (.int 1)], [.constant (.int 2)], rfl, nofun, hint⟩
  exact ⟨rfl, by decide, rfl, hover.not_accepts, rfl⟩

end Method

end JvmTypes
