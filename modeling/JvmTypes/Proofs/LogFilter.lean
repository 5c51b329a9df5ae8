import JvmTypes.LogFilter
import Mathlib.Data.List.DropRight
/-!
# Merging log filters

Joined by a comma, two texts can be read exactly if each of them can, as the directives of the one
followed by those of the other. The last directive for a target is in force. So the directives of
the environment count before the configured ones, and a text that can be read is never given up for
one that cannot.
-/
namespace JvmTypes

namespace Text

theorem splitCommas_eq_splitOnP (text : List Char) :
    splitCommas text = text.splitOnP (· = ',') := by
  induction text with
  | nil => simp [splitCommas]
  | cons c cs ih =>
    rw [List.splitOnP_cons_eq_if_modifyHead, ← ih]
    by_cases hc : c = ','
    · simp [splitCommas, hc]
    · cases hcs : splitCommas cs with
      | nil => exact absurd (ih ▸ hcs) (List.splitOnP_ne_nil _ _)
      | cons piece pieces => simp [splitCommas, hcs, hc]

theorem splitCommas_append_comma (a b : List Char) :
    splitCommas (a ++ ',' :: b) = splitCommas a ++ splitCommas b := by
  simp only [splitCommas_eq_splitOnP]
  exact List.splitOnP_append_cons a b (by simp)

theorem trim_trim (text : String) : trim (trim text) = trim text := by
  have htrim : ∀ text : String,
      (trim text).toList = (text.toList.dropWhile isBlank).rdropWhile isBlank := by
    intro text
    rw [trim, String.toList_ofList, List.rdropWhile]
  -- Dropping the blanks at the end leaves the first character, which is none.
  have hhead : ∀ cs : List Char, ((cs.dropWhile isBlank).rdropWhile isBlank).dropWhile isBlank =
      (cs.dropWhile isBlank).rdropWhile isBlank := by
    intro cs
    rw [List.dropWhile_eq_self_iff]
    intro hpos
    have hkept := List.rdropWhile_prefix isBlank (cs.dropWhile isBlank)
    have hfront : 0 < (cs.dropWhile isBlank).length := lt_of_lt_of_le hpos hkept.length_le
    rw [hkept.getElem hpos]
    simpa using List.dropWhile_get_zero_not isBlank cs hfront
  apply String.ext
  rw [htrim, htrim, hhead, List.rdropWhile_idempotent]

end Text

namespace LogFilter

theorem normalize_normalize (level : String) : normalize (normalize level) = normalize level := by
  by_cases hblank : Text.trim level = ""
  · have hinfo : normalize level = "info" := by simp [normalize, hblank]
    rw [hinfo]
    decide +kernel
  · obtain hname | htext : normalize level ∈ ["trace", "debug", "info", "warn", "error"] ∨
        (normalize level = Text.trim level) := by
      rw [normalize, if_neg hblank]
      split <;> simp
    · have hfixed : ∀ name ∈ ["trace", "debug", "info", "warn", "error"],
          normalize name = name := by decide +kernel
      exact hfixed _ hname
    · have hsame : normalize (Text.trim level) = normalize level := by
        simp only [normalize, Text.trim_trim]
      rw [htext, hsame, htext]

theorem pieces_join (a b : String) : pieces (a ++ "," ++ b) = pieces a ++ pieces b := by
  have htext : (a ++ "," ++ b).toList = a.toList ++ ',' :: b.toList := by simp
  rw [pieces, htext, Text.splitCommas_append_comma, List.filter_append, pieces, pieces]

theorem find?_insert (d : LogDirective) (ds : List LogDirective) (t : Option String) :
    (insert d ds).find? (·.target = t) =
      if d.target = t then some d else ds.find? (·.target = t) := by
  induction ds with
  | nil => by_cases ht : d.target = t <;> simp [insert, ht]
  | cons e es ih =>
    rw [insert]
    by_cases hsame : e.target = d.target
    · rw [if_pos hsame]
      by_cases ht : d.target = t <;> simp [hsame, ht]
    · rw [if_neg hsame]
      by_cases ht : d.target = t
      · have hne : e.target ≠ t := fun he => hsame (he.trans ht.symm)
        by_cases hbefore : d.before e = true <;> simp [hbefore, ih, ht, hne]
      · by_cases hbefore : d.before e = true <;> simp [hbefore, List.find?_cons, ih, ht]

def inForce (f : LogFilter) (t : Option String) : Option LogDirective :=
  f.directives.find? (·.target = t)

theorem inForce_ofDirectives (ds : List LogDirective) (t : Option String) :
    (ofDirectives ds).inForce t = ds.reverse.find? (·.target = t) := by
  induction ds using List.reverseRecOn with
  | nil => simp [inForce, ofDirectives, empty]
  | append_singleton ds d ih =>
    have hadd : (ofDirectives (ds ++ [d])).directives = insert d (ofDirectives ds).directives := by
      simp [ofDirectives, add]
    rw [inForce, hadd, find?_insert, ← inForce, ih]
    by_cases ht : d.target = t <;> simp [ht]

section Merging

variable {δ τ φ : Type} [DecidableEq τ] {directive : List Char → Option δ} {target : δ → τ}
  {build : List δ → φ} {inForce : φ → τ → Option δ} {read : String → Option φ} {plain : φ}
  {level text : String} {environment : Option String} {cs es : List δ} {t : τ}

/-- A reader of filters takes the directives between the commas, leaves out empty ones, and reads
nothing if it cannot read one of them. In the filter of a list of directives the last one for a
target is in force. -/
structure ReadsDirectives (directive : List Char → Option δ) (target : δ → τ) (build : List δ → φ)
    (inForce : φ → τ → Option δ) (read : String → Option φ) : Prop where
  reads : ∀ text, read text = ((pieces text).mapM directive).map build
  inForce_build : ∀ ds t, inForce (build ds) t = ds.reverse.find? (target · = t)

namespace ReadsDirectives

variable (h : ReadsDirectives directive target build inForce read)
include h

theorem read_of_mapM (hes : (pieces text).mapM directive = some es) :
    read text = some (build es) := by
  rw [h.reads, hes, Option.map_some]

theorem read_eq_none_iff : read text = none ↔ (pieces text).mapM directive = none := by
  rw [h.reads, Option.map_eq_none_iff]

theorem read_join {a b : String} (hcs : (pieces a).mapM directive = some cs)
    (hes : (pieces b).mapM directive = some es) :
    read (a ++ "," ++ b) = some (build (cs ++ es)) := by
  apply h.read_of_mapM
  rw [pieces_join, List.mapM_append, hcs, hes]
  simp

theorem read_join_of_left {a : String} (hnone : read a = none) (b : String) :
    read (a ++ "," ++ b) = none := by
  rw [h.read_eq_none_iff] at hnone ⊢
  rw [pieces_join, List.mapM_append, hnone]
  simp

theorem read_join_of_right {b : String} (a : String) (hnone : read b = none) :
    read (a ++ "," ++ b) = none := by
  rw [h.read_eq_none_iff] at hnone ⊢
  rw [pieces_join, List.mapM_append, hnone]
  simp

theorem inForce_append : inForce (build (cs ++ es)) t =
    (inForce (build es) t).or (inForce (build cs) t) := by
  simp only [h.inForce_build, List.reverse_append, List.find?_append]

theorem inForce_eq_none_iff : inForce (build es) t = none ↔ ∀ d ∈ es, target d ≠ t := by
  simp [h.inForce_build]

end ReadsDirectives

theorem readsDirectives_parse? : ReadsDirectives LogDirective.parse? LogDirective.target
    ofDirectives LogFilter.inForce parse? where
  reads _ := rfl
  inForce_build := inForce_ofDirectives

/-- The environment asks for the filter `text`; one that is blank asks for none. -/
def Given (environment : Option String) (text : String) : Prop :=
  text ≠ "" ∧ ∃ value ∈ environment, Text.trim value = text

theorem effective_of_given (h : Given environment text) :
    effective read plain level environment =
      ((read (normalize level ++ "," ++ text)).or (read text)).getD
        (configured read plain level) := by
  obtain ⟨hne, value, hvalue, htrim⟩ := h
  rw [Option.mem_def] at hvalue
  have hgiven : (environment.map Text.trim).filter (· ≠ "") = some text := by
    rw [hvalue, Option.map_some, htrim]
    exact Option.filter_some_pos (by simpa using hne)
  rw [effective, hgiven]

theorem effective_of_unset (h : ∀ text, ¬ Given environment text) :
    effective read plain level environment = configured read plain level := by
  have hunset : (environment.map Text.trim).filter (· ≠ "") = none := by
    rw [Option.filter_eq_none_iff]
    intro text htext
    obtain ⟨value, hvalue, htrim⟩ := Option.map_eq_some_iff.mp htext
    have hblank : text = "" := by
      by_contra hne
      exact h text ⟨hne, value, hvalue, htrim⟩
    simp [hblank]
  rw [effective, hunset]

/-- `f` merges the filter of the level with the one of the environment and keeps what of them can be
read. -/
structure Merges (directive : List Char → Option δ) (target : δ → τ) (build : List δ → φ)
    (inForce : φ → τ → Option δ) (read : String → Option φ) (level : String)
    (environment : Option String) (f : φ) : Prop where
  both : ∀ text cs es, Given environment text →
    (pieces (normalize level)).mapM directive = some cs → (pieces text).mapM directive = some es →
      f = build (cs ++ es) ∧
      (∀ t, (∃ d ∈ es, target d = t) → inForce f t = inForce (build es) t) ∧
      (∀ t, (∀ d ∈ es, target d ≠ t) → inForce f t = inForce (build cs) t)
  environmentOnly : ∀ text g, Given environment text → read (normalize level) = none →
    read text = some g → f = g
  levelOnly : ∀ text g, Given environment text → read (normalize level) = some g →
    read text = none → f = g
  unset : ∀ g, (∀ text, ¬ Given environment text) → read (normalize level) = some g → f = g
  neither : (∀ text, Given environment text → read text = none) → read (normalize level) = none →
    read "info" = some f

theorem ReadsDirectives.merges (h : ReadsDirectives directive target build inForce read)
    (hplain : read "info" = some plain) (level : String) (environment : Option String) :
    Merges directive target build inForce read level environment
      (effective read plain level environment) := by
  constructor
  case both =>
    intro text cs es hgiven hcs hes
    have heffective : effective read plain level environment = build (cs ++ es) := by
      rw [effective_of_given hgiven, h.read_join hcs hes, Option.some_or, Option.getD_some]
    refine ⟨heffective, ?_, ?_⟩
    · rintro t ⟨d, hd, ht⟩
      have hsome : inForce (build es) t ≠ none := by
        rw [Ne, h.inForce_eq_none_iff]
        intro hall
        exact hall d hd ht
      rw [heffective, h.inForce_append, Option.or_of_isSome (Option.isSome_iff_ne_none.mpr hsome)]
    · intro t ht
      rw [heffective, h.inForce_append, h.inForce_eq_none_iff.mpr ht, Option.none_or]
  case environmentOnly =>
    intro text g hgiven hlevel htext
    rw [effective_of_given hgiven, h.read_join_of_left hlevel, htext, Option.none_or,
      Option.getD_some]
  case levelOnly =>
    intro text g hgiven hlevel htext
    rw [effective_of_given hgiven, h.read_join_of_right _ htext, htext, Option.none_or,
      Option.getD_none, configured, hlevel, Option.getD_some]
  case unset =>
    intro g hunset hlevel
    rw [effective_of_unset hunset, configured, hlevel, Option.getD_some]
  case neither =>
    intro hnone hlevel
    have hconfigured : configured read plain level = plain := by
      rw [configured, hlevel, Option.getD_none]
    by_cases hunset : ∀ text, ¬ Given environment text
    · rw [effective_of_unset hunset, hconfigured, hplain]
    · push Not at hunset
      obtain ⟨text, hgiven⟩ := hunset
      rw [effective_of_given hgiven, h.read_join_of_left hlevel, hnone text hgiven, Option.none_or,
        Option.getD_none, hconfigured, hplain]

/-- The filter of the settings is the merged one, for every level and every environment. The plain
filter is the one of the text `info`. -/
theorem effective_keeps_what_is_readable
    (h : ReadsDirectives directive target build inForce read)
    (hplain : read "info" = some plain) (level : String) (environment : Option String) :
    Merges directive target build inForce read level environment
        (effective read plain level environment) ∧
      normalize (normalize level) = normalize level := by
  constructor
  · exact h.merges hplain level environment
  · exact normalize_normalize level

/-- The environment raises one target, and the configured level stays for the others. -/
theorem warning_stays_beside_trace_of_one_target :
    parse? "info" = some fallback ∧
      (Merges LogDirective.parse? LogDirective.target ofDirectives LogFilter.inForce parse?
          "warning" (some " nova.types=trace ")
          (ofSettings "warning" (some " nova.types=trace ")) ∧
        normalize (normalize "warning") = normalize "warning") ∧
      ofSettings "warning" (some " nova.types=trace ") =
        ⟨[⟨some "nova.types", .trace⟩, ⟨none, .warn⟩], .trace⟩ := by
  have hplain : parse? "info" = some fallback := by decide +kernel
  refine ⟨hplain, ?_, by decide +kernel⟩
  exact effective_keeps_what_is_readable readsDirectives_parse? hplain _ _

end Merging

end LogFilter

end JvmTypes
