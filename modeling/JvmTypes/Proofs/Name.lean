import Mathlib.Data.List.TakeWhile
import JvmTypes.Name
/-!
# Splitting and rewriting names

A name is cut at the last separator: nothing is lost but the separator, and the second part has
none. Writing a name with dots in place of slashes is undone where it had no dots.
-/
namespace JvmTypes.Name

variable {sep : Char} {text front name : List Char}

theorem splitLast_of_not_mem (h : sep ∉ name) : splitLast sep name = ([], name) := by
  have hdrop : name.reverse.dropWhile (· ≠ sep) = [] := by
    rw [List.dropWhile_eq_nil_iff]
    intro c hc
    simpa using ne_of_mem_of_not_mem (List.mem_reverse.mp hc) h
  rw [splitLast, hdrop]

theorem splitLast_append (h : sep ∉ name) :
    splitLast sep (front ++ sep :: name) = (front, name) := by
  have hname : ∀ c ∈ name.reverse, decide (c ≠ sep) = true := by
    intro c hc
    simpa using ne_of_mem_of_not_mem (List.mem_reverse.mp hc) h
  have htext : (front ++ sep :: name).reverse = name.reverse ++ sep :: front.reverse := by simp
  have hdrop : (front ++ sep :: name).reverse.dropWhile (· ≠ sep) = sep :: front.reverse := by
    rw [htext, List.dropWhile_append_of_pos hname, List.dropWhile_cons_of_neg (by simp)]
  have htake : (front ++ sep :: name).reverse.takeWhile (· ≠ sep) = name.reverse := by
    rw [htext, List.takeWhile_append_of_pos hname, List.takeWhile_cons_of_neg (by simp),
      List.append_nil]
  rw [splitLast, hdrop, htake]
  simp

theorem splitLast_cases (h : splitLast sep text = (front, name)) :
    sep ∉ name ∧ (front = [] ∧ text = name ∨ text = front ++ sep :: name) := by
  by_cases hmem : sep ∈ text
  · obtain ⟨after, before, htext, hafter⟩ := List.eq_append_cons_of_mem (List.mem_reverse.mpr hmem)
    obtain rfl : text = before.reverse ++ sep :: after.reverse := by
      simpa using congrArg List.reverse htext
    have hnot : sep ∉ after.reverse := by simpa using hafter
    rw [splitLast_append hnot] at h
    cases h
    exact ⟨hnot, .inr rfl⟩
  · rw [splitLast_of_not_mem hmem] at h
    cases h
    exact ⟨hmem, .inl ⟨rfl, rfl⟩⟩

theorem replaceChar_replaceChar {a b : Char} {text : String} (h : b ∉ text.toList) :
    replaceChar b a (replaceChar a b text) = text := by
  have hmap : (text.toList.map fun c => if c = a then b else c).map
      (fun c => if c = b then a else c) = text.toList := by
    rw [List.map_map]
    refine (List.map_congr_left fun c hc => ?_).trans (List.map_id text.toList)
    have hne : c ≠ b := ne_of_mem_of_not_mem hc h
    by_cases ha : c = a
    · simp [ha]
    · simp [ha, hne]
  rw [replaceChar, replaceChar, String.toList_ofList, hmap, String.ofList_toList]

/-- An internal name without dots is got back from the binary name. -/
theorem toInternal_toBinary {internal : String} (h : '.' ∉ internal.toList) :
    toInternal (toBinary internal) = internal :=
  replaceChar_replaceChar h

theorem toBinary_toInternal {binary : String} (h : '/' ∉ binary.toList) :
    toBinary (toInternal binary) = binary :=
  replaceChar_replaceChar h

theorem mem_of_mem_replaceChar {a b c : Char} {text : String}
    (h : c ∈ (replaceChar a b text).toList) : c = b ∨ c ∈ text.toList := by
  rw [replaceChar, String.toList_ofList] at h
  obtain ⟨d, hd, heq⟩ := List.mem_map.mp h
  split at heq
  · exact .inl heq.symm
  · exact .inr (heq ▸ hd)

end JvmTypes.Name
