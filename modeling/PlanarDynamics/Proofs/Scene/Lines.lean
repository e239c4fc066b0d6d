import PlanarDynamics.Proofs.Scene.Batches
import PlanarDynamics.Proofs.Scene.Grammar

/-!
# Lines one by one

A line that does not end the scene is accepted and gives its commands, or it is reported with its
fault. The one fault that is not in the grammar is a range too wide to be sampled.
-/

namespace PlanarDynamics

variable {γ : Type} [WordSource γ]

/-- The line has the meaning `d`, its mass is one that a shape may have, and the ends of its ranges
are finite and in order if any particle is to be drawn. -/
structure Accepts (line : List Char) (d : Directive) : Prop where
  reads : Reads line d
  mass : ∀ mass ∈ d.mass?, isMass mass = true
  ranges : ∀ b, d = .batch b → 0 < b.count → ∀ r ∈ b.ranges, r.isProper = true

/-- The line has a meaning without a fault. -/
def Accepted (line : List Char) : Prop := ∃ d, Accepts line d

/-- What is wrong with a line that is not accepted: its first word, or its mass if nothing is wrong
with its words, or its words and ranges. -/
inductive Faulty (line : List Char) : LineFault → Prop
  | unknown {first args} : Text.words line = first :: args → first.head? ≠ some '#' →
      (∀ keyword : Keyword, first ≠ keyword.spelling.toList) →
        Faulty line (.unknown (String.ofList first))
  | mass {d mass} : Reads line d → d.mass? = some mass → isMass mass = false →
      Faulty line (.mass ⟨mass⟩)
  | malformed {keyword args} : StartsWith line keyword args →
      (∀ d, Reads line d → ∀ mass ∈ d.mass?, isMass mass = true) → ¬ Accepted line →
        Faulty line (.malformed keyword.spelling)

/-- The line asks for particles, and the first range that they cannot be drawn from is too wide. -/
def DrawsTooWide (line : List Char) : Prop :=
  ∃ b, Reads line (.batch b) ∧ isMass b.mass.lo = true ∧ b.fault? = some .wideRange

namespace Directive

variable {d : Directive} {source rest : γ} {commands : List (Command Float32)} {line : List Char}
  {fault : LineFault}

/-- The title that a line gives. -/
def title? : Directive → Option String
  | title text => some text
  | _ => none

/-- The view that a line gives. -/
def viewport? : Directive → Option (Viewport Float32)
  | viewport v => some v
  | _ => none

/-- The commands that a line gives, and the source that it leaves. -/
inductive Issues (source : γ) : Directive → List (Command Float32) → γ → Prop
  | skip : Issues source .skip [] source
  | viewport (v : Viewport Float32) : Issues source (.viewport v) [] source
  | title (text : String) : Issues source (.title text) [] source
  | command (c : Command Float32) : Issues source (.command c) [c] source
  | batch {b : Batch} {particles : List (Command Float32)} {rest : γ} :
    b.Gives b.count source particles rest → Issues source (.batch b) particles rest

/-- Draws what a line asks for. -/
def issue (d : Directive) (source : γ) : Except LineFault (List (Command Float32) × γ) :=
  match d with
  | command c => .ok ([c], source)
  | batch b => b.draw source
  | _ => .ok ([], source)

/-- Reads a line and draws what it asks for. -/
def runLine (line : List Char) (source : γ) :
    Except LineFault (Directive × List (Command Float32) × γ) := do
  let d ← ofLine line
  let result ← d.issue source
  return (d, result)

theorem checked_of_mass (h : ∀ mass ∈ d.mass?, isMass mass = true) : d.checked = .ok d := by
  rw [checked]
  split
  case h_1 mass hmass => rw [if_pos (h mass hmass)]
  case h_2 => rfl

theorem eq_of_checked {d' : Directive} (h : d'.checked = .ok d) : d' = d := by
  rw [checked] at h
  split at h
  case h_1 =>
    split at h
    case isTrue => exact Except.ok.inj h
    case isFalse => cases h
  case h_2 => exact Except.ok.inj h

/-- A meaning with a proper mass is the only one. -/
theorem eq_of_reads {d' : Directive} (h : Reads line d)
    (hmass : ∀ mass ∈ d.mass?, isMass mass = true) (h' : Reads line d') : d' = d := by
  have hchecked : d'.checked = .ok d := by
    rw [← ofLine_of_reads h', ofLine_of_reads h, checked_of_mass hmass]
  exact eq_of_checked hchecked

theorem Issues.issue_eq (hranges : ∀ b, d = .batch b → 0 < b.count → ∀ r ∈ b.ranges,
    r.isProper = true) (h : Issues source d commands rest) :
    d.issue source = .ok (commands, rest) := by
  cases h with
  | skip | viewport | title | command => rfl
  | batch hgives => exact Batch.draw_of_gives (hranges _ rfl) hgives

theorem runLine_of_accepts (h : Accepts line d) (hissues : Issues source d commands rest) :
    runLine line source = .ok (d, commands, rest) := by
  rw [runLine, ofLine_of_reads h.reads, checked_of_mass h.mass]
  dsimp only [bind, Except.bind]
  rw [hissues.issue_eq h.ranges]
  rfl

theorem runLine_of_ofLine_error (h : ofLine line = .error fault) (source : γ) :
    runLine line source = .error fault := by
  rw [runLine, h]
  rfl

theorem runLine_of_fault? {b : Batch} (h : Reads line (.batch b))
    (hmass : isMass b.mass.lo = true) (hfault : b.fault? = some fault) (source : γ) :
    runLine line source = .error fault := by
  have hchecked : (batch b).checked = .ok (.batch b) := checked_of_mass (by
    rintro m ⟨rfl⟩
    exact hmass)
  rw [runLine, ofLine_of_reads h, hchecked]
  dsimp only [bind, Except.bind, issue]
  rw [Batch.draw_of_fault? hfault]

theorem runLine_of_drawsTooWide (h : DrawsTooWide line) (source : γ) :
    runLine line source = .error .wideRange := by
  obtain ⟨b, hreads, hmass, hfault⟩ := h
  exact runLine_of_fault? hreads hmass hfault source

/-- A directive gives its commands unless it is a batch with a faulty range. -/
theorem issues_or_fault? (hstop : d ≠ .stop) (source : γ) :
    ((∀ b, d = .batch b → 0 < b.count → ∀ r ∈ b.ranges, r.isProper = true) ∧
      ∃ commands rest, Issues source d commands rest) ∨
        ∃ b fault, d = .batch b ∧ b.fault? = some fault := by
  cases d with
  | skip => exact .inl ⟨nofun, _, _, .skip⟩
  | viewport v => exact .inl ⟨nofun, _, _, .viewport v⟩
  | title text => exact .inl ⟨nofun, _, _, .title text⟩
  | command c => exact .inl ⟨nofun, _, _, .command c⟩
  | stop => exact absurd rfl hstop
  | batch b =>
    cases hfault : b.fault? with
    | some fault => exact .inr ⟨b, fault, rfl, hfault⟩
    | none =>
      obtain ⟨hproper, particles, rest, hgives⟩ := Batch.exists_gives_of_fault? hfault source
      refine .inl ⟨?_, particles, rest, .batch hgives⟩
      rintro _ ⟨rfl⟩
      exact hproper

theorem startsWith_of_reads_batch {b : Batch} (h : Reads line (.batch b)) :
    ∃ args, StartsWith line .batch args := by
  cases h with
  | phrase hstart hphrase =>
    cases hphrase with
    | batch => exact ⟨_, hstart⟩

theorem faulty_of_range {b : Batch} {r : SampleRange} (h : Reads line (.batch b))
    (hmass : isMass b.mass.lo = true) (hpos : 0 < b.count) (hr : r ∈ b.ranges)
    (hproper : r.isProper = false) :
    ¬ Accepted line ∧ Faulty line (.malformed Keyword.batch.spelling) := by
  have hmasses : ∀ mass ∈ (batch b).mass?, isMass mass = true := by
    rintro m ⟨rfl⟩
    exact hmass
  have hunique : ∀ d, Reads line d → d = .batch b := fun d hd => eq_of_reads h hmasses hd
  have hrefused : ¬ Accepted line := by
    rintro ⟨d, haccepts⟩
    have htrue := haccepts.ranges b (hunique d haccepts.reads) hpos r hr
    rw [hproper] at htrue
    cases htrue
  obtain ⟨args, hstart⟩ := startsWith_of_reads_batch h
  refine ⟨hrefused, .malformed hstart (fun d hd => ?_) hrefused⟩
  rw [hunique d hd]
  exact hmasses

theorem faulty_of_mass {mass : Float32} (h : Reads line d) (hsome : d.mass? = some mass)
    (hmass : isMass mass = false) :
    ¬ Accepted line ∧ Faulty line (.mass ⟨mass⟩) ∧ ofLine line = .error (.mass ⟨mass⟩) := by
  have hofLine : ofLine line = .error (.mass ⟨mass⟩) := by
    rw [ofLine_of_reads h, checked, hsome]
    exact if_neg (by rw [hmass]; exact Bool.false_ne_true)
  refine ⟨?_, .mass h hsome hmass, hofLine⟩
  rintro ⟨d', haccepts⟩
  rw [ofLine_of_reads haccepts.reads, checked_of_mass haccepts.mass] at hofLine
  cases hofLine

/-- A line with a meaning is accepted, faulty, or asks for a range that is too wide. -/
theorem runLine_of_reads (h : Reads line d) (source : γ) :
    (∃ commands rest, Accepts line d ∧ Issues source d commands rest) ∨
      (∃ fault, ¬ Accepted line ∧ Faulty line fault ∧ runLine line source = .error fault) ∨
        DrawsTooWide line := by
  by_cases hmass : ∀ mass ∈ d.mass?, isMass mass = true
  · obtain ⟨hproper, commands, rest, hissues⟩ | ⟨b, fault, rfl, hfault⟩ :=
      issues_or_fault? (ne_stop_of_reads h) source
    · exact .inl ⟨commands, rest, ⟨h, hmass, hproper⟩, hissues⟩
    · obtain rfl | ⟨rfl, hpos, r, hr, hproper⟩ := Batch.eq_or_eq_of_fault? hfault
      · exact .inr (.inr ⟨b, h, hmass _ rfl, hfault⟩)
      · obtain ⟨hrefused, hfaulty⟩ := faulty_of_range h (hmass _ rfl) hpos hr hproper
        exact .inr (.inl ⟨_, hrefused, hfaulty, runLine_of_fault? h (hmass _ rfl) hfault source⟩)
  · push Not at hmass
    obtain ⟨mass, hsome, hmass⟩ := hmass
    obtain ⟨hrefused, hfaulty, hofLine⟩ :=
      faulty_of_mass h hsome (Bool.eq_false_of_not_eq_true hmass)
    exact .inr (.inl ⟨_, hrefused, hfaulty, runLine_of_ofLine_error hofLine source⟩)

/-- A line that does not end the scene is accepted, faulty, or asks for a range that is too
wide. -/
theorem runLine_cases (hstop : ∀ args, ¬ StartsWith line .stop args) (source : γ) :
    (∃ d commands rest, Accepts line d ∧ Issues source d commands rest) ∨
      (∃ fault, ¬ Accepted line ∧ Faulty line fault ∧ runLine line source = .error fault) ∨
        DrawsTooWide line := by
  by_cases hreads : ∃ d, Reads line d
  · obtain ⟨d, h⟩ := hreads
    exact (runLine_of_reads h source).imp_left fun hcommands => ⟨d, hcommands⟩
  · have hrefused : ¬ Accepted line := fun ⟨d, h⟩ => hreads ⟨d, h.reads⟩
    obtain ⟨args, hend⟩ | ⟨keyword, args, hstart, hofLine⟩ | ⟨first, args, hwords, hhash,
      hunknown⟩ := (line_cases line).resolve_left hreads
    · exact absurd hend (hstop args)
    · refine .inr (.inl ⟨_, hrefused, ?_, runLine_of_ofLine_error hofLine source⟩)
      exact .malformed hstart (fun d h => absurd ⟨d, h⟩ hreads) hrefused
    · have hofLine := ofLine_of_unknown hwords hhash hunknown
      exact .inr (.inl ⟨_, hrefused, .unknown hwords hhash hunknown,
        runLine_of_ofLine_error hofLine source⟩)

theorem ofLine_ne_stop (hstop : ∀ args, ¬ StartsWith line .stop args) :
    ofLine line ≠ .ok .stop := by
  intro h
  obtain ⟨d, hreads⟩ | ⟨args, hend⟩ | ⟨keyword, args, -, hofLine⟩ |
    ⟨first, args, hwords, hhash, hunknown⟩ := line_cases line
  · rw [ofLine_of_reads hreads] at h
    exact ne_stop_of_reads hreads (eq_of_checked h)
  · exact hstop args hend
  · rw [hofLine] at h
    cases h
  · rw [ofLine_of_unknown hwords hhash hunknown] at h
    cases h

end Directive

end PlanarDynamics
