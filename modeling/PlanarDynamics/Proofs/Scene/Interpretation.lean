import PlanarDynamics.Proofs.Scene.Lines

/-!
# Scenes as interpretations of their text

A text is carried out line by line up to the one that ends the scene. Each line in turn is accepted
and adds its commands to those before it, or it stops the parser, which then reports the line's
number and its fault.
-/

namespace PlanarDynamics

variable {γ : Type} [WordSource γ]

namespace Scene

variable {source rest : γ} {commands : List (Command Float32)} {line : List Char}
  {lines : List (List Char)} {origin : String} {n : Nat} {scene : Scene Float32}

open Directive

/-- The first word of the line ends the scene. -/
def endsScene (line : List Char) : Bool :=
  decide ((Text.words line).head? = some Keyword.stop.spelling.toList)

/-- The lines before the first that ends the scene. -/
def body (text : String) : List (List Char) :=
  (Text.lines text.toList).takeWhile fun line => !endsScene line

/-- The commands of meanings carried out in turn, each from the source that the one before left. -/
inductive Carries : List Directive → γ → List (Command Float32) → γ → Prop
  | nil (source : γ) : Carries [] source [] source
  | cons {d : Directive} {ds : List Directive} {source source₁ rest : γ}
    {commands more : List (Command Float32)} : Issues source d commands source₁ →
      Carries ds source₁ more rest → Carries (d :: ds) source (commands ++ more) rest

/-- The scene that lines describe from left to right, with the title and the view that were given
last, and the source that is left. -/
def Interprets (lines : List (List Char)) (source : γ) (scene : Scene Float32) (rest : γ) : Prop :=
  ∃ ds, List.Forall₂ Accepts lines ds ∧ Carries ds source scene.commands rest ∧
    scene.title = (ds.filterMap title?).getLast? ∧
      scene.viewport = (ds.filterMap viewport?).getLast?

/-- The lines up to some are accepted, and that one asks for a range that is too wide. -/
def SamplesTooWide (lines : List (List Char)) : Prop :=
  ∃ before line after, lines = before ++ line :: after ∧ (∀ l ∈ before, Accepted l) ∧
    DrawsTooWide line

/-- Takes in a line, with the commands in reverse. -/
def record (scene : Scene Float32) (d : Directive) (commands : List (Command Float32)) :
    Scene Float32 :=
  ⟨d.title?.or scene.title, d.viewport?.or scene.viewport, commands.reverse ++ scene.commands⟩

/-- Takes in lines in turn. -/
def recordAll (scene : Scene Float32) (ds : List Directive) (commands : List (Command Float32)) :
    Scene Float32 :=
  ⟨(ds.filterMap title?).getLast?.or scene.title,
    (ds.filterMap viewport?).getLast?.or scene.viewport, commands.reverse ++ scene.commands⟩

theorem getLast?_filterMap_cons {β : Type} (f : Directive → Option β) (d : Directive)
    (ds : List Directive) (last : Option β) :
    ((d :: ds).filterMap f).getLast?.or last = (ds.filterMap f).getLast?.or ((f d).or last) := by
  cases hd : f d with
  | none => rw [List.filterMap_cons_none hd, Option.none_or]
  | some x =>
    rw [List.filterMap_cons_some hd, List.getLast?_cons]
    cases (ds.filterMap f).getLast? <;> rfl

theorem recordAll_cons (d : Directive) (ds : List Directive) (more : List (Command Float32)) :
    scene.recordAll (d :: ds) (commands ++ more) = (scene.record d commands).recordAll ds more := by
  simp only [recordAll, record, getLast?_filterMap_cons, List.reverse_append, List.append_assoc]

theorem parseLines_cons (hstop : ∀ args, ¬ StartsWith line .stop args)
    (lines : List (List Char × Nat)) :
    parseLines origin ((line, n) :: lines) scene source =
      match runLine line source with
      | .ok (d, commands, source) => parseLines origin lines (scene.record d commands) source
      | .error fault => .error (.atLine origin n fault) := by
  rw [parseLines, runLine]
  cases h : ofLine line with
  | error fault => rfl
  | ok d =>
    cases d with
    | skip => rfl
    | viewport v => rfl
    | title text => rfl
    | command c => rfl
    | batch b =>
      dsimp only [bind, Except.bind, issue]
      cases b.draw source <;> rfl
    | stop => exact absurd h (ofLine_ne_stop hstop)

theorem endsScene_iff : endsScene line = true ↔ ∃ args, StartsWith line .stop args := by
  rw [endsScene, decide_eq_true_eq, List.head?_eq_some_iff]
  rfl

theorem not_startsWith_stop (h : (!endsScene line) = true) (args : List (List Char)) :
    ¬ StartsWith line .stop args := by
  intro hstart
  rw [endsScene_iff.mpr ⟨args, hstart⟩] at h
  cases h

/-- Nothing is read beyond the line that ends the scene. -/
theorem parseLines_takeWhile (lines : List (List Char)) :
    parseLines origin (lines.zipIdx n) scene source =
      parseLines origin ((lines.takeWhile fun line => !endsScene line).zipIdx n) scene source := by
  induction lines generalizing n scene source with
  | nil => rfl
  | cons line lines ih =>
    cases hend : endsScene line with
    | true =>
      obtain ⟨args, hstart⟩ := endsScene_iff.mp hend
      rw [List.takeWhile_cons_of_neg (by simp [hend]), List.zipIdx_cons, parseLines,
        ofLine_of_startsWith hstart]
      rfl
    | false =>
      have hpasses : (!endsScene line) = true := by rw [hend]; rfl
      have hstop := not_startsWith_stop hpasses
      rw [List.takeWhile_cons, if_pos hpasses, List.zipIdx_cons, List.zipIdx_cons,
        parseLines_cons hstop, parseLines_cons hstop]
      cases runLine line source with
      | ok result => exact ih
      | error fault => rfl

theorem not_startsWith_stop_of_reads {d : Directive} (h : Reads line d) (args : List (List Char)) :
    ¬ StartsWith line .stop args := by
  intro hstart
  have hofLine := ofLine_of_startsWith hstart
  rw [ofLine_of_reads h] at hofLine
  exact ne_stop_of_reads h (eq_of_checked hofLine)

/-- Accepted lines are carried out in turn. -/
theorem parseLines_of_accepts {ds : List Directive} (h : List.Forall₂ Accepts lines ds)
    (hcarries : Carries ds source commands rest) :
    parseLines origin (lines.zipIdx n) scene source =
      .ok (scene.recordAll ds commands, rest) := by
  induction h generalizing n scene source commands with
  | nil =>
    cases hcarries
    rfl
  | cons haccepts _ ih =>
    cases hcarries with
    | cons hissues hrest =>
      rw [List.zipIdx_cons, parseLines_cons (not_startsWith_stop_of_reads haccepts.reads),
        runLine_of_accepts haccepts hissues, recordAll_cons]
      exact ih hrest

/-- A range that is too wide stops the parser at its line, or an earlier one does. -/
theorem parseLines_of_samplesTooWide (origin : String) (n : Nat) (scene : Scene Float32)
    (source : γ) (h : SamplesTooWide lines) :
    ∃ m, parseLines origin (lines.zipIdx n) scene source =
      .error (.atLine origin m .wideRange) := by
  obtain ⟨before, line, after, rfl, hbefore, hwide⟩ := h
  induction before generalizing n scene source with
  | nil =>
    obtain ⟨b, hreads, -⟩ := id hwide
    rw [List.nil_append, List.zipIdx_cons, parseLines_cons (not_startsWith_stop_of_reads hreads),
      runLine_of_drawsTooWide hwide]
    exact ⟨n, rfl⟩
  | cons first before ih =>
    obtain ⟨⟨d, haccepts⟩, hbefore⟩ := List.forall_mem_cons.mp hbefore
    rw [List.cons_append, List.zipIdx_cons,
      parseLines_cons (not_startsWith_stop_of_reads haccepts.reads)]
    obtain ⟨commands, rest, -, hissues⟩ | ⟨fault, hrefused, -⟩ | hfirst :=
      runLine_of_reads haccepts.reads source
    · rw [runLine_of_accepts haccepts hissues]
      exact ih _ _ _ hbefore
    · exact absurd ⟨d, haccepts⟩ hrefused
    · rw [runLine_of_drawsTooWide hfirst]
      exact ⟨n, rfl⟩

/-- The parser accepts all lines, or stops at the first that is faulty or asks for a range that is
too wide. -/
theorem parseLines_cases (origin : String) (n : Nat) (scene : Scene Float32) (source : γ)
    (hstop : ∀ line ∈ lines, ∀ args, ¬ StartsWith line .stop args) :
    (∃ ds commands rest, List.Forall₂ Accepts lines ds ∧ Carries ds source commands rest) ∨
      (∃ before line after fault, lines = before ++ line :: after ∧
        (∀ l ∈ before, Accepted l) ∧ ¬ Accepted line ∧ Faulty line fault ∧
          parseLines origin (lines.zipIdx n) scene source =
            .error (.atLine origin (before.length + n) fault)) ∨
        SamplesTooWide lines := by
  induction lines generalizing n scene source with
  | nil => exact .inl ⟨[], [], source, .nil, .nil source⟩
  | cons line lines ih =>
    obtain ⟨hline, hlines⟩ := List.forall_mem_cons.mp hstop
    rw [List.zipIdx_cons, parseLines_cons hline]
    obtain ⟨d, commands, source₁, haccepts, hissues⟩ | ⟨fault, hrefused, hfaulty, hrun⟩ | hwide :=
      runLine_cases hline source
    · have hcons : ∀ before : List (List Char), (∀ l ∈ before, Accepted l) →
          ∀ l ∈ line :: before, Accepted l := fun before hbefore =>
        List.forall_mem_cons.mpr ⟨⟨d, haccepts⟩, hbefore⟩
      rw [runLine_of_accepts haccepts hissues]
      obtain ⟨ds, more, rest, hds, hcarries⟩ | ⟨before, stopped, after, fault, rfl, hbefore,
        hrefused, hfaulty, hparse⟩ | ⟨before, stopped, after, rfl, hbefore, hwide⟩ :=
        ih _ _ _ hlines
      · exact .inl ⟨d :: ds, commands ++ more, rest, .cons haccepts hds, .cons hissues hcarries⟩
      · refine .inr (.inl ⟨line :: before, stopped, after, fault, rfl, hcons before hbefore,
          hrefused, hfaulty, ?_⟩)
        rw [List.length_cons, Nat.add_assoc, Nat.add_comm 1 n]
        exact hparse
      · exact .inr (.inr ⟨line :: before, stopped, after, rfl, hcons before hbefore, hwide⟩)
    · refine .inr (.inl ⟨[], line, lines, fault, rfl, nofun, hrefused, hfaulty, ?_⟩)
      rw [hrun, List.length_nil, Nat.zero_add]
    · exact .inr (.inr ⟨[], line, lines, rfl, nofun, hwide⟩)

theorem not_startsWith_stop_of_mem_body {text : String} :
    ∀ line ∈ body text, ∀ args, ¬ StartsWith line .stop args := by
  intro line hline
  have hpasses := List.mem_takeWhile_imp hline
  exact not_startsWith_stop hpasses

theorem parse_eq (text origin : String) (source : γ) :
    parse text origin source =
      (parseLines origin ((body text).zipIdx 1) empty source).map fun (scene, rest) =>
        ({ scene with commands := scene.commands.reverse }, rest) := by
  rw [body, ← parseLines_takeWhile, parse]
  cases parseLines origin ((Text.lines text.toList).zipIdx 1) empty source <;> rfl

theorem accepted_of_forall₂ {ds : List Directive} (h : List.Forall₂ Accepts lines ds) :
    ∀ line ∈ lines, Accepted line := by
  induction h with
  | nil => exact nofun
  | cons haccepts _ ih => exact List.forall_mem_cons.mpr ⟨⟨_, haccepts⟩, ih⟩

/-- What is carried out is the scene that the lines describe. -/
theorem parse_of_accepts {text : String} {ds : List Directive} (origin : String)
    (h : List.Forall₂ Accepts (body text) ds) (hcarries : Carries ds source commands rest) :
    parse text origin source = .ok
      (⟨(ds.filterMap title?).getLast?, (ds.filterMap viewport?).getLast?, commands⟩, rest) := by
  rw [parse_eq, parseLines_of_accepts h hcarries]
  simp [Except.map, recordAll, empty]

/-- The body is wholly accepted, or the parser stops at a line of it. -/
theorem parse_cases (text origin : String) (source : γ) :
    (∃ ds commands rest, List.Forall₂ Accepts (body text) ds ∧ Carries ds source commands rest) ∨
      (∃ before line after fault, body text = before ++ line :: after ∧
        (∀ l ∈ before, Accepted l) ∧ ¬ Accepted line ∧ Faulty line fault ∧
          parse text origin source = .error (.atLine origin (before.length + 1) fault)) ∨
        SamplesTooWide (body text) := by
  refine (parseLines_cases origin 1 empty source not_startsWith_stop_of_mem_body).imp_right
    (Or.imp_left ?_)
  rintro ⟨before, line, after, fault, hbody, hbefore, hrefused, hfaulty, hparse⟩
  refine ⟨before, line, after, fault, hbody, hbefore, hrefused, hfaulty, ?_⟩
  rw [parse_eq, hparse]
  rfl

theorem parse_of_samplesTooWide {text : String} (origin : String) (source : γ)
    (h : SamplesTooWide (body text)) :
    ∃ n, parse text origin source = .error (.atLine origin n .wideRange) := by
  obtain ⟨n, hn⟩ := parseLines_of_samplesTooWide origin 1 empty source h
  exact ⟨n, by rw [parse_eq, hn]; rfl⟩

theorem parse_eq_ok_iff {text : String} :
    parse text origin source = .ok (scene, rest) ↔ Interprets (body text) source scene rest := by
  constructor
  · intro hparse
    obtain ⟨ds, commands, rest', hds, hcarries⟩ | ⟨before, line, after, fault, -, -, -, -, herror⟩ |
      hwide := parse_cases text origin source
    · rw [parse_of_accepts origin hds hcarries] at hparse
      cases hparse
      exact ⟨ds, hds, hcarries, rfl, rfl⟩
    · rw [hparse] at herror
      cases herror
    · obtain ⟨n, herror⟩ := parse_of_samplesTooWide origin source hwide
      rw [hparse] at herror
      cases herror
  · rintro ⟨ds, hds, hcarries, htitle, hviewport⟩
    rw [parse_of_accepts origin hds hcarries, ← htitle, ← hviewport]

theorem accepted_of_parse {text : String} (h : parse text origin source = .ok (scene, rest)) :
    ∀ line ∈ body text, Accepted line := by
  obtain ⟨ds, hds, -⟩ := parse_eq_ok_iff.mp h
  exact accepted_of_forall₂ hds

/-- Parsing interprets the lines from left to right, and fails at the first that is not accepted. -/
theorem parse_interprets (text origin : String) (source : γ)
    (hwidth : ¬ SamplesTooWide (body text)) :
    ((∃ scene rest, parse text origin source = .ok (scene, rest)) ↔
        ∀ line ∈ body text, Accepted line) ∧
      (∀ scene rest, parse text origin source = .ok (scene, rest) ↔
        Interprets (body text) source scene rest) ∧
      ∀ e, parse text origin source = .error e →
        ∃ before line after fault, body text = before ++ line :: after ∧
          (∀ l ∈ before, Accepted l) ∧ ¬ Accepted line ∧ Faulty line fault ∧
            e = .atLine origin (before.length + 1) fault := by
  refine ⟨⟨fun ⟨_, _, h⟩ => accepted_of_parse h, ?_⟩, fun _ _ => parse_eq_ok_iff, ?_⟩
  · intro haccepted
    obtain ⟨ds, commands, rest, hds, hcarries⟩ | ⟨before, line, after, fault, hbody, -, hrefused,
      -⟩ | hwide := parse_cases text origin source
    · exact ⟨_, _, parse_of_accepts origin hds hcarries⟩
    · exact absurd (haccepted line (hbody ▸ List.mem_append_cons_self)) hrefused
    · exact absurd hwide hwidth
  · intro e he
    obtain ⟨ds, commands, rest, hds, hcarries⟩ | ⟨before, line, after, fault, hbody, hbefore,
      hrefused, hfaulty, herror⟩ | hwide := parse_cases text origin source
    · rw [parse_of_accepts origin hds hcarries] at he
      cases he
    · rw [herror] at he
      exact ⟨before, line, after, fault, hbody, hbefore, hrefused, hfaulty,
        (Except.error.inj he).symm⟩
    · exact absurd hwide hwidth

-- Results of parsing are compared below.
deriving instance DecidableEq for Except

/-- A text with a comment, a batch that is drawn and one that is skipped. Nothing after the end is
read. -/
theorem parse_interprets_batches :
    let text := "TITLE One\nPARTICLE 1 1 0 0\n\n # drawn\nREPEAT 2 PARTICLE 1 2 1 1 0 4 0 0\n" ++
      "REPEAT 9 BALL\n TITLE  Two \nEND\nPARTICLE"
    ¬ SamplesTooWide (body text) ∧ (∀ line ∈ body text, Accepted line) ∧
      ∃ scene rest, scene.title = some "Two" ∧ scene.commands.length = 3 ∧
        Interprets (body text) (LinearGenerator.mk 0) scene rest := by
  intro text
  have hsummary : (parse text "" (LinearGenerator.mk 0)).map
      (fun (scene, _) => (scene.title, scene.commands.length)) = .ok (some "Two", 3) := by
    decide +kernel
  cases hparse : parse text "" (LinearGenerator.mk 0) with
  | error e =>
    rw [hparse] at hsummary
    cases hsummary
  | ok result =>
  obtain ⟨scene, rest⟩ := result
  rw [hparse] at hsummary
  obtain ⟨htitle, hlength⟩ := Prod.mk.inj (Except.ok.inj hsummary)
  have hwidth : ¬ SamplesTooWide (body text) := fun h => by
    obtain ⟨n, herror⟩ := parse_of_samplesTooWide "" (LinearGenerator.mk 0) h
    cases hparse.symm.trans herror
  obtain ⟨hiff, hinterprets, -⟩ := parse_interprets text "" (LinearGenerator.mk 0) hwidth
  exact ⟨hwidth, hiff.mp ⟨scene, rest, hparse⟩, scene, rest, htitle, hlength,
    (hinterprets scene rest).mp hparse⟩

/-- The parser finds a range too wide to be sampled exactly if it comes to draw from one. It always
ends with a scene or an error that names a line. -/
theorem parse_wideRange_iff (text origin : String) (source : γ) :
    ((∃ n, parse text origin source = .error (.atLine origin n .wideRange)) ↔
        SamplesTooWide (body text)) ∧
      ((∃ scene rest, parse text origin source = .ok (scene, rest)) ∨
        ∃ n fault, parse text origin source = .error (.atLine origin n fault)) := by
  obtain ⟨ds, commands, rest, hds, hcarries⟩ | ⟨before, line, after, fault, -, -, -, hfaulty,
    herror⟩ | hwide := parse_cases text origin source
  · have hparse := parse_of_accepts origin hds hcarries
    refine ⟨⟨fun ⟨n, hn⟩ => ?_, parse_of_samplesTooWide origin source⟩, .inl ⟨_, _, hparse⟩⟩
    rw [hparse] at hn
    cases hn
  · refine ⟨⟨fun ⟨n, hn⟩ => ?_, parse_of_samplesTooWide origin source⟩, .inr ⟨_, _, herror⟩⟩
    rw [herror] at hn
    cases hn
    cases hfaulty
  · obtain ⟨n, herror⟩ := parse_of_samplesTooWide origin source hwide
    exact ⟨⟨fun _ => hwide, fun _ => ⟨n, herror⟩⟩, .inr ⟨n, _, herror⟩⟩

/-- The ends of a range may be finite and in order and yet too far apart. -/
theorem parse_overflowing_width :
    (SampleRange.mk (-3e38) 3e38).isProper = true ∧
      parse "REPEAT 1 PARTICLE 1 1 1 1 -3e38 3e38 0 0" "" (LinearGenerator.mk 0) =
        .error (.atLine "" 1 .wideRange) := by
  decide +kernel

end Scene

end PlanarDynamics
