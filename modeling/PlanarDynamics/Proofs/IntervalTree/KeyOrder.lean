import PlanarDynamics.IntervalTree.Entry
import PlanarDynamics.Proofs.SortedList

/-!
# The order of entries

Keys may include values outside their own order, such as a floating-point value that is not a
number. The others are ordered linearly up to values that compare as equal, and then so are the
entries that have such keys on both ends.
-/

namespace PlanarDynamics

/-- The key takes part in the comparisons. -/
def IsKey {K : Type} [LE K] (a : K) : Prop := a ≤ a

/-- Keys with a linear order up to equality. Values that are no key compare to nothing. -/
class OrderedKeys (K : Type) [LT K] [LE K] : Prop where
  isKey_of_le {a b : K} : a ≤ b → IsKey a ∧ IsKey b
  le_trans {a b c : K} : a ≤ b → b ≤ c → a ≤ c
  le_total {a b : K} : IsKey a → IsKey b → a ≤ b ∨ b ≤ a
  lt_iff {a b : K} : a < b ↔ IsKey a ∧ IsKey b ∧ ¬ b ≤ a

instance : OrderedKeys Int64 where
  isKey_of_le _ := ⟨Int64.le_refl _, Int64.le_refl _⟩
  le_trans := Int64.le_trans
  le_total _ _ := Int64.le_total _ _
  lt_iff := ⟨fun h => ⟨Int64.le_refl _, Int64.le_refl _, Int64.not_le.mpr h⟩,
    fun h => Int64.not_le.mp h.2.2⟩

variable {K V : Type} [LT K] [LE K]

section Keys

variable [OrderedKeys K] {a b c m : K}

theorem IsKey.not_lt (ha : IsKey a) (hb : IsKey b) : ¬ a < b ↔ b ≤ a := by
  rw [OrderedKeys.lt_iff]
  constructor
  · intro h
    exact Classical.not_not.mp fun hba => h ⟨ha, hb, hba⟩
  · exact fun hba h => h.2.2 hba

theorem OrderedKeys.le_of_lt (h : a < b) : a ≤ b := by
  obtain ⟨ha, hb, hba⟩ := OrderedKeys.lt_iff.mp h
  exact (OrderedKeys.le_total ha hb).resolve_right hba

theorem OrderedKeys.lt_of_le_of_lt (hab : a ≤ b) (hbc : b < c) : a < c := by
  obtain ⟨-, hc, hcb⟩ := OrderedKeys.lt_iff.mp hbc
  exact OrderedKeys.lt_iff.mpr ⟨(OrderedKeys.isKey_of_le hab).1, hc,
    fun hca => hcb (OrderedKeys.le_trans hca hab)⟩

theorem OrderedKeys.lt_of_lt_of_le (hab : a < b) (hbc : b ≤ c) : a < c := by
  obtain ⟨ha, -, hba⟩ := OrderedKeys.lt_iff.mp hab
  exact OrderedKeys.lt_iff.mpr ⟨ha, (OrderedKeys.isKey_of_le hbc).2,
    fun hca => hba (OrderedKeys.le_trans hbc hca)⟩

theorem OrderedKeys.not_le_of_lt (h : a < b) : ¬ b ≤ a := (OrderedKeys.lt_iff.mp h).2.2

theorem OrderedKeys.not_lt_of_lt (h : a < b) : ¬ b < a :=
  fun hba => not_le_of_lt h (le_of_lt hba)

variable [DecidableLT K]

/-- The larger of two keys is the least key above both. -/
theorem IsKey.maxKey_le (ha : IsKey a) (hb : IsKey b) :
    IntervalEntry.maxKey a b ≤ m ↔ a ≤ m ∧ b ≤ m := by
  unfold IntervalEntry.maxKey
  split
  case isTrue h =>
    have hab := OrderedKeys.le_of_lt h
    exact ⟨fun hbm => ⟨OrderedKeys.le_trans hab hbm, hbm⟩, fun hm => hm.2⟩
  case isFalse h =>
    have hba := (ha.not_lt hb).mp h
    exact ⟨fun ham => ⟨ham, OrderedKeys.le_trans hba ham⟩, fun hm => hm.1⟩

omit [OrderedKeys K] in
theorem IsKey.maxKey (ha : IsKey a) (hb : IsKey b) : IsKey (IntervalEntry.maxKey a b) := by
  unfold IntervalEntry.maxKey
  split
  · exact hb
  · exact ha

/-- The comparison of keys. -/
def compareOrdered (a b : {k : K // IsKey k}) : Ordering := IntervalEntry.compareKeys a.1 b.1

theorem compareOrdered_isLE (a b : {k : K // IsKey k}) :
    (compareOrdered a b).isLE ↔ a.1 ≤ b.1 := by
  unfold compareOrdered IntervalEntry.compareKeys
  rw [← b.2.not_lt a.2]
  by_cases hab : a.1 < b.1
  · have hba : ¬ b.1 < a.1 := (b.2.not_lt a.2).mpr (OrderedKeys.le_of_lt hab)
    simp [hab, hba]
  · by_cases hba : b.1 < a.1 <;> simp [hab, hba]

instance : Std.TransCmp (compareOrdered (K := K)) where
  eq_swap {a b} := by
    unfold compareOrdered IntervalEntry.compareKeys
    by_cases hab : a.1 < b.1
    · have hba : ¬ b.1 < a.1 := (b.2.not_lt a.2).mpr (OrderedKeys.le_of_lt hab)
      simp [hab, hba]
    · by_cases hba : b.1 < a.1 <;> simp [hab, hba]
  isLE_trans {a b c} hab hbc := by
    rw [compareOrdered_isLE] at *
    exact OrderedKeys.le_trans hab hbc

end Keys

namespace IntervalEntry

/-- Both ends of the entry are keys. -/
structure IsKeyed (e : IntervalEntry K V) : Prop where
  low : IsKey e.low
  high : IsKey e.high

variable [DecidableLT K] [Ord V]

/-- The order of the entries that have keys. -/
def compareKeyed (e f : {e : IntervalEntry K V // e.IsKeyed}) : Ordering := e.1.order f.1

variable [OrderedKeys K] [Std.TransOrd V]

instance : Std.TransCmp (compareKeyed (K := K) (V := V)) := by
  let low : {e : IntervalEntry K V // e.IsKeyed} → {k : K // IsKey k} :=
    fun e => ⟨e.1.low, e.2.low⟩
  let high : {e : IntervalEntry K V // e.IsKeyed} → {k : K // IsKey k} :=
    fun e => ⟨e.1.high, e.2.high⟩
  let value : {e : IntervalEntry K V // e.IsKeyed} → V := fun e => e.1.value
  have hlow := transCmp_comap compareOrdered low
  have hhigh := transCmp_comap compareOrdered high
  have hvalue := transCmp_comap compare value
  exact inferInstanceAs <| Std.TransCmp <|
    compareLex (fun e f => compareOrdered (low e) (low f)) <|
      compareLex (fun e f => compareOrdered (high e) (high f)) fun e f =>
        compare (value e) (value f)

variable {e f g : IntervalEntry K V}

theorem IsKeyed.order_swap (he : e.IsKeyed) (hf : f.IsKeyed) : e.order f = (f.order e).swap :=
  @Std.OrientedCmp.eq_swap _ compareKeyed _ ⟨e, he⟩ ⟨f, hf⟩

theorem IsKeyed.isLE_trans (he : e.IsKeyed) (hf : f.IsKeyed) (hg : g.IsKeyed)
    (hef : (e.order f).isLE) (hfg : (f.order g).isLE) : (e.order g).isLE :=
  @Std.TransCmp.isLE_trans _ compareKeyed _ ⟨e, he⟩ ⟨f, hf⟩ ⟨g, hg⟩ hef hfg

theorem IsKeyed.lt_of_lt_of_isLE (he : e.IsKeyed) (hf : f.IsKeyed) (hg : g.IsKeyed)
    (hef : e.order f = .lt) (hfg : (f.order g).isLE) : e.order g = .lt :=
  @Std.TransCmp.lt_of_lt_of_isLE _ compareKeyed _ ⟨e, he⟩ ⟨f, hf⟩ ⟨g, hg⟩ hef hfg

theorem IsKeyed.lt_of_isLE_of_lt (he : e.IsKeyed) (hf : f.IsKeyed) (hg : g.IsKeyed)
    (hef : (e.order f).isLE) (hfg : f.order g = .lt) : e.order g = .lt :=
  @Std.TransCmp.lt_of_isLE_of_lt _ compareKeyed _ ⟨e, he⟩ ⟨f, hf⟩ ⟨g, hg⟩ hef hfg

omit [Std.TransOrd V] in
theorem IsKeyed.low_le (he : e.IsKeyed) (hf : f.IsKeyed) (hef : (e.order f).isLE) :
    e.low ≤ f.low := by
  rw [← hf.low.not_lt he.low]
  intro hlt
  have hle : ¬ e.low < f.low := (he.low.not_lt hf.low).mpr (OrderedKeys.le_of_lt hlt)
  have hkeys : compareKeys e.low f.low = .gt := by
    simp only [compareKeys, if_neg hle, if_pos hlt]
  simp [order, hkeys] at hef

end IntervalEntry

end PlanarDynamics
