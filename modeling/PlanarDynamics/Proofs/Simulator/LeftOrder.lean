import Mathlib.Logic.Relation
import PlanarDynamics.Proofs.Simulator.References

/-!
# How long the references stay in order

The references are in the order of the left edges of the state in which they were last sorted. That
is the present state if a shape was added since they were asked for. A run moves the edges without
sorting again, so after it the order is that of an earlier state.
-/

namespace PlanarDynamics.Simulator

variable {α : Type} {s t : Simulator α}

/-- The left edge of a shape. -/
def leftOf (s : Simulator α) (h : Handle) : Option α := (s.aabbOf h).map (·.left)

theorem leftOf_of_mem_edges {e : Handle × α} (he : e ∈ s.movingEdges ++ s.lineEdges) :
    s.leftOf e.1 = some e.2 := by
  simp only [movingEdges, lineEdges, List.mem_append, List.mem_map, Prod.exists,
    List.mk_mem_zipIdx_iff_getElem?, Array.getElem?_toList] at he
  rcases he with ((⟨x, i, hx, rfl⟩ | ⟨x, i, hx, rfl⟩) | ⟨x, i, hx, rfl⟩) | ⟨x, i, hx, rfl⟩ <;>
    simp only [leftOf, aabbOf, hx, Option.map_some]

variable [Scalar α]

/-- Handles in the order of the left edges that their shapes have in a state. -/
def InLeftOrder (s : Simulator α) (handles : Array Handle) : Prop :=
  handles.toList.Pairwise fun a b =>
    ∀ x ∈ s.leftOf a, ∀ y ∈ s.leftOf b, (Scalar.totalCmp x y).isLE = true

/-- Whether handles are in order depends on the left edges of their shapes only. -/
theorem InLeftOrder.congr {handles : Array Handle} (h : s.InLeftOrder handles)
    (hleft : ∀ a ∈ handles, t.leftOf a = s.leftOf a) : t.InLeftOrder handles := by
  refine List.Pairwise.imp_of_mem ?_ h
  intro a b ha hb hab
  rw [hleft a (Array.mem_toList_iff.mp ha), hleft b (Array.mem_toList_iff.mp hb)]
  exact hab

theorem inLeftOrder_sortByLeft {entries : List (Handle × α)}
    (h : ∀ e ∈ entries, s.leftOf e.1 = some e.2) :
    s.InLeftOrder ((sortByLeft entries).map Prod.fst).toArray := by
  rw [InLeftOrder, List.pairwise_map]
  refine (pairwise_sortByLeft entries).imp_of_mem ?_
  intro a b ha hb hab x hx y hy
  rw [h a ((sortByLeft_perm entries).mem_iff.mp ha)] at hx
  rw [h b ((sortByLeft_perm entries).mem_iff.mp hb)] at hy
  rw [← Option.some.inj hx, ← Option.some.inj hy]
  exact hab

theorem inLeftOrder_sortReferences (s : Simulator α) :
    s.InLeftOrder s.sortReferences.shapes ∧ s.InLeftOrder s.sortReferences.moving := by
  constructor
  · apply inLeftOrder_sortByLeft
    intro e he
    rw [((sortByLeft_perm s.movingEdges).append_right _).mem_iff] at he
    exact leftOf_of_mem_edges he
  · apply inLeftOrder_sortByLeft
    exact fun e he => leftOf_of_mem_edges (List.mem_append_left _ he)

/-- References that are kept after commands were carried out were kept before them. -/
theorem refs_runAll (s : Simulator α) (commands : List (Command α)) :
    ∀ r ∈ (Command.runAll s commands).1.refs, s.refs = some r := by
  apply runAll_induction (P := fun t => ∀ r ∈ t.refs, s.refs = some r)
  · intro t u command ht hu
    rcases refs_run hu with hnone | ⟨fields, rfl⟩
    · rw [hnone]
      exact nofun
    · exact ht
  · exact fun r hr => hr

/-- A scene without shapes leaves the references sorted as they are, and any other drops them. -/
theorem refs_apply (s : Simulator α) (scene : Scene α) :
    ∀ r ∈ (scene.apply s).1.refs, r = (scene.apply s).1.sortReferences := by
  apply runAll_induction (P := fun t => ∀ r ∈ t.refs, r = t.sortReferences)
  · intro t u command ht hu
    rcases refs_run hu with hnone | ⟨fields, rfl⟩
    · rw [hnone]
      exact nofun
    · exact ht
  · rintro _ ⟨⟩
    simp [clear, create, sortReferences, sortByLeft, movingEdges, lineEdges]

/-- References that are kept after a call are those from before it, or are in the present order. -/
theorem refs_call (c : Call α) {r : References} (hr : (s.call c).refs = some r) :
    r = s.references ∨ r = (s.call c).sortReferences := by
  have hkept (hs : s.refs = some r) : r = s.references := by rw [references, hs]; rfl
  cases c with
  | add command => exact .inl (hkept (refs_runAll s [command] r hr))
  | addField field => exact .inl (hkept hr)
  | setField i field => exact .inl (hkept hr)
  | moveField i pos => exact .inl (hkept hr)
  | set setting => exact .inl (hkept hr)
  | clear => exact .inr (refs_apply s .empty r hr)
  | apply scene => exact .inr (refs_apply s scene r hr)
  | references => exact .inl (Option.some.inj hr).symm
  | simulate seconds =>
    rw [call, refs_simulate] at hr
    exact .inl (Option.some.inj hr).symm

/-- A state that calls lead to from another one. -/
def LeadsTo : Simulator α → Simulator α → Prop :=
  Relation.ReflTransGen fun s t => ∃ c : Call α, t = s.call c

/-- The references of a state were sorted in the same state or before. -/
theorem Reachable.exists_sorted (h : s.Reachable) : ∃ t : Simulator α, t.Reachable ∧ t.LeadsTo s ∧
    s.references = t.sortReferences ∧ (s.refs = none → t = s) := by
  induction h with
  | create config =>
    refine ⟨.create config, .create config, .refl, ?_, fun _ => rfl⟩
    exact refs_apply (.create config) .empty _ rfl
  | @call s c hs ih =>
    obtain ⟨t, ht, hlead, hsorted, -⟩ := ih
    have hcall : (s.call c).Reachable := hs.call c
    cases hrefs : (s.call c).refs with
    | none =>
      refine ⟨s.call c, hcall, .refl, ?_, fun _ => rfl⟩
      rw [references, hrefs]
      rfl
    | some r =>
      have hr : (s.call c).references = r := by rw [references, hrefs]; rfl
      rcases refs_call c hrefs with heq | heq
      · exact ⟨t, ht, hlead.tail ⟨c, rfl⟩, hr.trans (heq.trans hsorted), by simp⟩
      · exact ⟨s.call c, hcall, .refl, hr.trans heq, by simp⟩

/-- The references name every shape, and those that move, once, in the order of the left edges of
the state in which they were sorted. That is the present state if none were kept. As long as no
left edge changes they stay in order, but a run that moves shapes keeps them all the same. -/
theorem references_left_order (h : s.Reachable) :
    s.references.Names s ∧
    (∃ t : Simulator α, t.Reachable ∧ t.LeadsTo s ∧
      t.InLeftOrder s.references.shapes ∧ t.InLeftOrder s.references.moving ∧
      (s.refs = none → t = s) ∧
      ((∀ a ∈ s.references.shapes, s.leftOf a = t.leftOf a) →
        s.InLeftOrder s.references.shapes ∧ s.InLeftOrder s.references.moving)) ∧
    ∀ seconds : α, (s.simulate seconds).references = s.references := by
  have hnames := h.names_references
  obtain ⟨t, ht, hlead, hsorted, hnow⟩ := h.exists_sorted
  obtain ⟨hshapes, hmoving⟩ := t.inLeftOrder_sortReferences
  rw [← hsorted] at hshapes hmoving
  refine ⟨hnames, ⟨t, ht, hlead, hshapes, hmoving, hnow, fun hleft => ?_⟩, fun seconds => ?_⟩
  · refine ⟨hshapes.congr hleft, hmoving.congr fun a ha => hleft a ?_⟩
    rw [← Array.mem_toList_iff, hnames.moving] at ha
    exact Array.mem_toList_iff.mp (List.mem_filter.mp ha).1
  · rw [references, refs_simulate]
    rfl

/-- The references were not asked for before, so they are sorted as the particles lie. -/
theorem references_left_order_chase :
    let s := chase .allPairs
    s.Reachable ∧ s.references.Names s ∧ s.InLeftOrder s.references.shapes := by
  intro s
  obtain ⟨hnames, ⟨t, -, -, hshapes, -, hnow, -⟩, -⟩ :=
    references_left_order (reachable_chase .allPairs)
  obtain rfl := hnow rfl
  exact ⟨reachable_chase _, hnames, hshapes⟩

/-- After one second the first particle has passed the second one, which the references do not
show. -/
theorem references_overtaken :
    let s := (chase .allPairs).keepReferences.simulate 1
    s.Reachable ∧ ¬ s.InLeftOrder s.references.shapes ∧ ¬ s.InLeftOrder s.references.moving := by
  intro s
  have hreach : s.Reachable := ((reachable_chase _).call .references).call (.simulate 1)
  have hrefs : s.references = ⟨#[.particle 0, .particle 1], #[.particle 0, .particle 1]⟩ := by
    rw [references, refs_simulate, keepReferences_chase]
    rfl
  have hfirst : s.leftOf (.particle 0) = some 9 := by
    simp only [s, keepReferences_chase]
    decide +kernel
  have hsecond : s.leftOf (.particle 1) = some 7 := by
    simp only [s, keepReferences_chase]
    decide +kernel
  have hwrong : ¬ s.InLeftOrder #[.particle 0, .particle 1] := by
    intro h
    have hle := (List.pairwise_cons.mp h).1 _ (List.mem_singleton_self _) 9 hfirst 7 hsecond
    exact absurd hle (by decide +kernel)
  exact ⟨hreach, hrefs ▸ hwrong, hrefs ▸ hwrong⟩

end PlanarDynamics.Simulator
