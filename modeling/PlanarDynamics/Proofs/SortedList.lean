/-!
# Sorted lists

What sorting by a comparison gives, and that a walk over a sorted list may stop at the first element
that fails a test which no later one passes.
-/

namespace PlanarDynamics

theorem transCmp_comap {α β : Type} (cmp : β → β → Ordering) [Std.TransCmp cmp] (f : α → β) :
    Std.TransCmp fun a b => cmp (f a) (f b) where
  eq_swap := Std.OrientedCmp.eq_swap
  isLE_trans := Std.TransCmp.isLE_trans

section Sorting

variable {α : Type} (cmp : α → α → Ordering) [Std.TransCmp cmp]

theorem isLE_or_isLE (a b : α) : ((cmp a b).isLE || (cmp b a).isLE) = true := by
  have hswap : cmp a b = (cmp b a).swap := Std.OrientedCmp.eq_swap
  cases h : cmp b a <;> simp [hswap, h]

theorem pairwise_mergeSort (l : List α) :
    (l.mergeSort fun a b => (cmp a b).isLE).Pairwise fun a b => (cmp a b).isLE :=
  List.pairwise_mergeSort (fun _ _ _ => Std.TransCmp.isLE_trans) (isLE_or_isLE cmp) l

/-- Sorting keeps the order of what is in order already. -/
theorem sublist_mergeSort {l m : List α} (hl : l.Pairwise fun a b => (cmp a b).isLE)
    (h : l.Sublist m) : l.Sublist (m.mergeSort fun a b => (cmp a b).isLE) :=
  List.sublist_mergeSort (fun _ _ _ => Std.TransCmp.isLE_trans) (isLE_or_isLE cmp) hl h

/-- What follows an element in a sorted list is not before it. -/
theorem isLE_of_mergeSort_eq {a : α} {l xs ys : List α}
    (h : (l.mergeSort fun a b => (cmp a b).isLE) = xs ++ a :: ys) :
    ∀ b ∈ ys, (cmp a b).isLE = true := by
  have hpairwise := pairwise_mergeSort cmp l
  rw [h, List.pairwise_append, List.pairwise_cons] at hpairwise
  exact hpairwise.2.1.1

omit [Std.TransCmp cmp] in
/-- A list splits in at most one way into elements that pass a test and others that do not. -/
theorem append_inj_of_split (passes : α → Bool) {xs ys ms ns : List α} (h : xs ++ ys = ms ++ ns)
    (hxs : ∀ a ∈ xs, passes a = true) (hys : ∀ a ∈ ys, passes a = false)
    (hms : ∀ a ∈ ms, passes a = true) (hns : ∀ a ∈ ns, passes a = false) : xs = ms ∧ ys = ns := by
  have hleft {xs ys : List α} (hxs : ∀ a ∈ xs, passes a = true)
      (hys : ∀ a ∈ ys, passes a = false) : (xs ++ ys).filter passes = xs := by
    rw [List.filter_append, List.filter_eq_self.mpr hxs, List.filter_eq_nil_iff.mpr,
      List.append_nil]
    exact fun a ha => by rw [hys a ha]; exact Bool.false_ne_true
  have hfirst : xs = ms := by rw [← hleft hxs hys, h, hleft hms hns]
  subst hfirst
  exact ⟨rfl, List.append_cancel_left h⟩

/-- Sorting is stable: it puts the picked elements in the order that it would without the others. -/
theorem filter_mergeSort (picked : α → Bool) (l : List α) :
    (l.mergeSort fun a b => (cmp a b).isLE).filter picked =
      (l.filter picked).mergeSort fun a b => (cmp a b).isLE := by
  induction l with
  | nil => simp
  | cons a l ih =>
    have htrans : ∀ a b c : α, (cmp a b).isLE = true → (cmp b c).isLE = true →
        (cmp a c).isLE = true := fun _ _ _ => Std.TransCmp.isLE_trans
    obtain ⟨xs, ys, hsorted, hl, hxs⟩ := List.mergeSort_cons htrans (isLE_or_isLE cmp) a l
    rw [hl, List.filter_append] at ih
    rw [hsorted, List.filter_append]
    cases ha : picked a with
    | false =>
      rw [List.filter_cons_of_neg (by simp [ha]), List.filter_cons_of_neg (by simp [ha]), ih]
    | true =>
      obtain ⟨ms, ns, hsorted', hl', hms⟩ :=
        List.mergeSort_cons htrans (isLE_or_isLE cmp) a (l.filter picked)
      rw [List.filter_cons_of_pos ha, List.filter_cons_of_pos ha, hsorted']
      -- In both lists `a` stands right behind the elements that are less than it.
      obtain ⟨rfl, rfl⟩ := append_inj_of_split (fun b => !(cmp a b).isLE) (ih.trans hl')
        (fun b hb => hxs b ((List.mem_filter.mp hb).1))
        (fun b hb => by
          rw [isLE_of_mergeSort_eq cmp hsorted b ((List.mem_filter.mp hb).1)]
          rfl)
        hms
        (fun b hb => by
          rw [isLE_of_mergeSort_eq cmp hsorted' b hb]
          rfl)
      rfl

end Sorting

section Leading

variable {β : Type} {passes : β → Bool}

theorem takeWhile_eq_filter {l : List β} (h : l.Pairwise fun a b => passes b = true → passes a) :
    l.takeWhile passes = l.filter passes := by
  induction l with
  | nil => rfl
  | cons a l ih =>
    obtain ⟨ha, hl⟩ := List.pairwise_cons.mp h
    by_cases hpass : passes a = true
    · rw [List.takeWhile_cons_of_pos hpass, List.filter_cons_of_pos hpass, ih hl]
    · rw [List.takeWhile_cons_of_neg hpass, List.filter_cons_of_neg hpass,
        List.filter_eq_nil_iff.mpr fun b hb hpass' => hpass (ha b hb hpass')]

theorem drop_findIdx_eq_filter {l : List β}
    (h : l.Pairwise fun a b => passes a = true → passes b) :
    l.drop (l.findIdx passes) = l.filter passes := by
  induction l with
  | nil => rfl
  | cons a l ih =>
    obtain ⟨ha, hl⟩ := List.pairwise_cons.mp h
    by_cases hpass : passes a = true
    · rw [List.findIdx_cons, hpass, List.filter_eq_self.mpr]
      · rfl
      · intro b hb
        rcases List.mem_cons.mp hb with rfl | hb
        · exact hpass
        · exact ha b hb hpass
    · rw [List.filter_cons_of_neg hpass, ← ih hl, List.findIdx_cons, Bool.eq_false_iff.mpr hpass]
      rfl

/-- The first element that passes stands behind all that do not, where none of these follows one
that passes. -/
theorem findIdx_eq_countP {l : List β}
    (h : l.Pairwise fun a b => passes a = true → passes b = true) :
    l.findIdx passes = l.countP fun a => !passes a := by
  have hdrop := congrArg List.length (drop_findIdx_eq_filter h)
  have hle : l.findIdx passes ≤ l.length := List.findIdx_le_length
  have hsum := List.length_eq_countP_add_countP passes (l := l)
  simp only [Bool.not_eq_true, Bool.decide_eq_false] at hsum
  rw [List.length_drop, ← List.countP_eq_length_filter] at hdrop
  omega

theorem filter_takeWhile {wanted : β → Bool} {l : List β}
    (h : l.Pairwise fun a b => passes b = true → passes a)
    (hwanted : ∀ a ∈ l, wanted a = true → passes a = true) :
    (l.takeWhile passes).filter wanted = l.filter wanted := by
  rw [takeWhile_eq_filter h, List.filter_filter]
  apply List.filter_congr
  intro a ha
  rw [Bool.eq_iff_iff, Bool.and_eq_true]
  exact ⟨fun hboth => hboth.1, fun hw => ⟨hw, hwanted a ha hw⟩⟩

end Leading

end PlanarDynamics
