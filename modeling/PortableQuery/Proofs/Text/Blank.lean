import PortableQuery.Text.Printing

set_option autoImplicit false

/-!
# Texts without the white space around them

Trimming takes white space off both ends of a text and nothing else, and it takes off all of it.

* **`Text.trim_eq_iff`**: that is what trimming yields.
-/

namespace PortableQuery.Text

/-- Every character is white space. -/
def IsBlankText (s : String) : Prop := ∀ c ∈ s.toList, isBlank c = true

/-- The second text is the first one without the white space around it: it stands in the first one
between white space, and neither starts nor ends with any. -/
structure Trims (s u : String) : Prop where
  around : ∃ before behind, IsBlankText before ∧ IsBlankText behind ∧ s = before ++ u ++ behind
  head : ∀ c ∈ u.toList.head?, isBlank c = false
  last : ∀ c ∈ u.toList.getLast?, isBlank c = false

theorem trimStart_append {before rest : List Char} (hbefore : ∀ c ∈ before, isBlank c = true)
    (hrest : ∀ c ∈ rest.head?, isBlank c = false) : trimStart (before ++ rest) = rest := by
  rw [trimStart, List.dropWhile_append_of_pos hbefore]
  cases rest with
  | nil => rfl
  | cons c cs => exact List.dropWhile_cons_of_neg (by simp [hrest c rfl])

theorem exists_trimStart (cs : List Char) :
    ∃ before, (∀ c ∈ before, isBlank c = true) ∧ cs = before ++ trimStart cs ∧
      ∀ c ∈ (trimStart cs).head?, isBlank c = false := by
  refine ⟨cs.takeWhile isBlank, List.all_eq_true.mp List.all_takeWhile,
    List.takeWhile_append_dropWhile.symm, fun c hc => ?_⟩
  have hhead := List.head?_dropWhile_not isBlank cs
  rw [trimStart, Option.mem_def] at hc
  rwa [hc] at hhead

theorem trims_trim (s : String) : Trims s (trim s) := by
  obtain ⟨before, hbefore, hs, hhead⟩ := exists_trimStart s.toList
  obtain ⟨behind, hbehind, hrest, hlast⟩ := exists_trimStart (trimStart s.toList).reverse
  have htrim : (trim s).toList = (trimStart (trimStart s.toList).reverse).reverse :=
    String.toList_ofList
  generalize trimStart s.toList = rest at hs hhead hrest hlast htrim
  generalize trimStart rest.reverse = back at hrest hlast htrim
  have hrest : rest = back.reverse ++ behind.reverse := by
    rw [← List.reverse_append, ← hrest, List.reverse_reverse]
  refine ⟨⟨.ofList before, .ofList behind.reverse, ?_, ?_, ?_⟩, fun c hc => ?_, fun c hc => ?_⟩
  · rwa [IsBlankText, String.toList_ofList]
  · rw [IsBlankText, String.toList_ofList]
    exact fun c hc => hbehind c (List.mem_reverse.mp hc)
  · apply String.toList_inj.mp
    rw [String.toList_append, String.toList_append, htrim, String.toList_ofList,
      String.toList_ofList, List.append_assoc, ← hrest, ← hs]
  · refine hhead c ?_
    rw [htrim] at hc
    rw [hrest, Option.mem_def, List.head?_append, Option.mem_def.mp hc, Option.some_or]
  · rw [htrim, List.getLast?_reverse] at hc
    exact hlast c hc

theorem Trims.trim_eq {s u : String} (h : Trims s u) : trim s = u := by
  obtain ⟨⟨before, behind, hbefore, hbehind, rfl⟩, hhead, hlast⟩ := h
  apply String.toList_inj.mp
  rw [trim, String.toList_ofList, String.toList_append, String.toList_append]
  generalize u.toList = cs at hhead hlast
  cases cs with
  | nil =>
    have hall : ∀ c ∈ before.toList ++ [] ++ behind.toList, isBlank c = true := by
      simpa [or_imp, forall_and] using ⟨hbefore, hbehind⟩
    have hnone : trimStart (before.toList ++ [] ++ behind.toList ++ []) = [] :=
      trimStart_append hall (by simp)
    rw [List.append_nil] at hnone
    rw [hnone]
    rfl
  | cons c cs =>
    -- a character that is not white space stops the search from either side
    have hbehind' : ∀ x ∈ behind.toList.reverse, isBlank x = true :=
      fun x hx => hbehind x (List.mem_reverse.mp hx)
    have hstart : trimStart (before.toList ++ (c :: cs ++ behind.toList)) =
        c :: cs ++ behind.toList := trimStart_append hbefore hhead
    rw [List.append_assoc, hstart, List.reverse_append,
      trimStart_append hbehind' (by rwa [List.head?_reverse]), List.reverse_reverse]

/-- **Trimming yields the text without the white space around it.** -/
theorem trim_eq_iff {s u : String} : trim s = u ↔ Trims s u := by
  constructor
  · rintro rfl
    exact trims_trim s
  · exact Trims.trim_eq

end PortableQuery.Text
