import Mathlib.Data.List.TakeWhile
import PlanarDynamics.Text.Blank

/-!
# Words and blanks

The first word of a text begins at the first character that is not blank and reaches up to the next
blank, and the other words are those of the rest. A text is trimmed by taking off blanks at either
end until there are none.
-/

namespace PlanarDynamics.Text

/-! ## Words -/

theorem words_append_blank {c : Char} (hc : isBlank c = true) (xs ys : List Char) :
    words (xs ++ c :: ys) = words xs ++ words ys := by
  rw [words, List.splitOnP_append_cons xs ys hc, List.filter_append]
  rfl

theorem words_cons_blank {c : Char} (hc : isBlank c = true) (cs : List Char) :
    words (c :: cs) = words cs := words_append_blank hc [] cs

theorem words_append_of_blank {before : List Char} (h : ∀ c ∈ before, isBlank c = true)
    (cs : List Char) : words (before ++ cs) = words cs := by
  induction before with
  | nil => rfl
  | cons c before ih =>
    rw [List.forall_mem_cons] at h
    rw [List.cons_append, words_cons_blank h.1, ih h.2]

theorem words_eq_singleton {w : List Char} (hne : w ≠ []) (h : ∀ c ∈ w, isBlank c = false) :
    words w = [w] := by
  rw [words, List.splitOnP_eq_singleton h]
  simp [hne]

/-- A word ends at a blank, or with the text. -/
theorem words_append_word {w rest : List Char} (hne : w ≠ []) (h : ∀ c ∈ w, isBlank c = false)
    (hrest : ∀ c ∈ rest.head?, isBlank c = true) : words (w ++ rest) = w :: words rest := by
  cases rest with
  | nil =>
    rw [List.append_nil, words_eq_singleton hne h]
    rfl
  | cons c rest =>
    have hc : isBlank c = true := hrest c rfl
    rw [words_append_blank hc, words_eq_singleton hne h, words_cons_blank hc]
    rfl

theorem trimStart_append {before cs : List Char} (h : ∀ c ∈ before, isBlank c = true)
    (hcs : ∀ c ∈ cs.head?, isBlank c = false) : trimStart (before ++ cs) = cs := by
  rw [trimStart, List.dropWhile_append_of_pos h]
  cases cs with
  | nil => rfl
  | cons c cs =>
    have hc : isBlank c = false := hcs c rfl
    exact List.dropWhile_cons_of_neg (by rw [hc]; exact Bool.false_ne_true)

/-- What blanks a text begins with, and that none is left at the start of the rest. -/
theorem exists_eq_append_trimStart (cs : List Char) : ∃ before, cs = before ++ trimStart cs ∧
    (∀ c ∈ before, isBlank c = true) ∧ ∀ c ∈ (trimStart cs).head?, isBlank c = false := by
  refine ⟨cs.takeWhile isBlank, List.takeWhile_append_dropWhile.symm, ?_, ?_⟩
  · exact fun c hc => List.mem_takeWhile_imp hc
  · intro c hc
    have h := List.head?_dropWhile_not isBlank cs
    rw [trimStart] at hc
    rw [hc] at h
    exact h

/-- Where the first word of a text stands. -/
theorem exists_of_words_eq_cons {cs w : List Char} {ws : List (List Char)}
    (h : words cs = w :: ws) : ∃ before rest, cs = before ++ (w ++ rest) ∧
      (∀ c ∈ before, isBlank c = true) ∧ w ≠ [] ∧ (∀ c ∈ w, isBlank c = false) ∧
        (∀ c ∈ rest.head?, isBlank c = true) ∧ words rest = ws := by
  obtain ⟨before, hcs, hbefore, hhead⟩ := exists_eq_append_trimStart cs
  rw [hcs, words_append_of_blank hbefore] at h
  cases htrim : trimStart cs with
  | nil =>
    rw [htrim] at h
    cases h
  | cons c t =>
    rw [htrim] at hhead hcs h
    let passes : Char → Bool := fun c => !isBlank c
    let word := (c :: t).takeWhile passes
    let rest := (c :: t).dropWhile passes
    have hsplit : word ++ rest = c :: t := List.takeWhile_append_dropWhile
    have hc : isBlank c = false := hhead c rfl
    have hne : word ≠ [] := by
      simp only [word, List.takeWhile_cons_of_pos (show passes c = true by simp [passes, hc])]
      exact List.cons_ne_nil _ _
    have hword : ∀ c ∈ word, isBlank c = false := fun c hmem => by
      have hpass : passes c = true := List.mem_takeWhile_imp hmem
      simpa [passes] using hpass
    have hrest : ∀ c ∈ rest.head?, isBlank c = true := by
      intro d hd
      have hstop := List.head?_dropWhile_not passes (c :: t)
      rw [show ((c :: t).dropWhile passes).head? = some d from hd] at hstop
      simpa [passes] using hstop
    rw [← hsplit, words_append_word hne hword hrest] at h
    obtain ⟨rfl, rfl⟩ := List.cons.inj h
    exact ⟨before, rest, hcs.trans (by rw [hsplit]), hbefore, hne, hword, hrest, rfl⟩

theorem words_eq_cons {before w rest : List Char} (hbefore : ∀ c ∈ before, isBlank c = true)
    (hne : w ≠ []) (hw : ∀ c ∈ w, isBlank c = false) (hrest : ∀ c ∈ rest.head?, isBlank c = true) :
    words (before ++ (w ++ rest)) = w :: words rest := by
  rw [words_append_of_blank hbefore, words_append_word hne hw hrest]

/-! ## Trimmed text -/

/-- The text without the blanks at either end. -/
structure Trimmed (cs text : List Char) : Prop where
  split : ∃ before behind, cs = before ++ (text ++ behind) ∧
    (∀ c ∈ before, isBlank c = true) ∧ ∀ c ∈ behind, isBlank c = true
  head : ∀ c ∈ text.head?, isBlank c = false
  last : ∀ c ∈ text.getLast?, isBlank c = false

theorem trimmed_trim (cs : List Char) : Trimmed cs (trim cs) := by
  obtain ⟨before, hcs, hbefore, hhead⟩ := exists_eq_append_trimStart cs
  obtain ⟨behind, hreverse, hbehind, hlast⟩ := exists_eq_append_trimStart (trimStart cs).reverse
  have htrim : trimStart cs = trim cs ++ behind.reverse := by
    rw [trim, ← List.reverse_append, ← hreverse, List.reverse_reverse]
  refine ⟨⟨before, behind.reverse, ?_, hbefore, ?_⟩, ?_, ?_⟩
  · rw [← htrim]
    exact hcs
  · exact fun c hc => hbehind c (List.mem_reverse.mp hc)
  · intro c hc
    apply hhead c
    rw [htrim, List.head?_append, Option.mem_def.mp hc]
    rfl
  · intro c hc
    rw [trim, List.getLast?_reverse] at hc
    exact hlast c hc

theorem Trimmed.eq_trim {cs text : List Char} (h : Trimmed cs text) : text = trim cs := by
  obtain ⟨⟨before, behind, rfl, hbefore, hbehind⟩, hhead, hlast⟩ := h
  have hbehind' : ∀ c ∈ behind.reverse, isBlank c = true := fun c hc =>
    hbehind c (List.mem_reverse.mp hc)
  cases text with
  | nil =>
    have hblank : ∀ c ∈ before ++ behind, isBlank c = true := List.forall_mem_append.mpr
      ⟨hbefore, hbehind⟩
    have hnil : ∀ c ∈ ([] : List Char).head?, isBlank c = false := nofun
    have hstart : trimStart (before ++ behind) = [] := by
      rw [← List.append_nil (before ++ behind)]
      exact trimStart_append hblank hnil
    rw [List.nil_append, trim, hstart]
    rfl
  | cons c text =>
    have hstart : trimStart (before ++ (c :: text ++ behind)) = c :: text ++ behind :=
      trimStart_append hbefore hhead
    have hend : trimStart (behind.reverse ++ (c :: text).reverse) = (c :: text).reverse :=
      trimStart_append hbehind' (by rw [List.head?_reverse]; exact hlast)
    rw [trim, hstart, List.reverse_append, hend, List.reverse_reverse]

end PlanarDynamics.Text
