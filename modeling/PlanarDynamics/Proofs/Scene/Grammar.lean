import PlanarDynamics.Proofs.Text.Blank
import PlanarDynamics.Scene.Directive

/-!
# The grammar of scene lines

What a line says, as a relation between the line and its meaning, and the reader of lines as a
decision procedure for it: a line that has a meaning is read as that meaning, unless its mass is
refused, and a line without one is reported by its first word.
-/

namespace PlanarDynamics

/-! ## Meanings -/

/-- The first words of lines that are not comments. -/
inductive Keyword where
  | size
  | title
  | line
  | particle
  | ball
  | box
  | gravity
  | batch
  | stop
  deriving DecidableEq

/-- How a keyword is written. -/
def Keyword.spelling : Keyword → String
  | size => "SIZE"
  | title => "TITLE"
  | line => "LINE"
  | particle => "PARTICLE"
  | ball => "BALL"
  | box => "BOX"
  | gravity => "GRAVITY"
  | batch => "REPEAT"
  | stop => "END"

/-- Words that are numbers, and the numbers. -/
def AreNumbers (args : List (List Char)) (xs : List Float32) : Prop :=
  args.map Decimal.readFloat? = xs.map some

/-- What may follow the position of a rigid shape: velocity, angle and angular velocity. The last
ones may be left out. -/
inductive Motion : List Float32 → Vec Float32 → Float32 → Float32 → Prop
  | none : Motion [] 0 0 0
  | velocity {vx vy} : Motion [vx, vy] ⟨vx, vy⟩ 0 0
  | angle {vx vy angle} : Motion [vx, vy, angle] ⟨vx, vy⟩ angle 0
  | spin {vx vy angle angVel} : Motion [vx, vy, angle, angVel] ⟨vx, vy⟩ angle angVel

/-- The words that may follow a keyword, and what they mean together. A batch of anything but
particles means nothing. -/
inductive Phrase : Keyword → List (List Char) → Directive → Prop
  | size {w h args width height left top right bottom} :
    Decimal.readUInt32? w = some width → Decimal.readUInt32? h = some height →
      AreNumbers args [left, top, right, bottom] →
        Phrase .size (w :: h :: args) (.viewport ⟨width, height, left, top, right, bottom⟩)
  | line {args x₁ y₁ x₂ y₂} :
    AreNumbers args [x₁, y₁, x₂, y₂] →
      Phrase .line args (.command (.line ⟨x₁, y₁⟩ ⟨x₂, y₂⟩ none))
  | facingLine {args x₁ y₁ x₂ y₂ px py} :
    AreNumbers args [x₁, y₁, x₂, y₂, px, py] →
      Phrase .line args (.command (.line ⟨x₁, y₁⟩ ⟨x₂, y₂⟩ (some ⟨px, py⟩)))
  | particle {args mass radius x y} :
    AreNumbers args [mass, radius, x, y] →
      Phrase .particle args (.command (.particle mass radius ⟨x, y⟩ 0))
  | movingParticle {args mass radius x y vx vy} :
    AreNumbers args [mass, radius, x, y, vx, vy] →
      Phrase .particle args (.command (.particle mass radius ⟨x, y⟩ ⟨vx, vy⟩))
  | ball {args mass radius x y rest vel angle angVel} :
    AreNumbers args (mass :: radius :: x :: y :: rest) → Motion rest vel angle angVel →
      Phrase .ball args (.command (.ball mass radius ⟨x, y⟩ vel angle angVel))
  | box {args mass width height x y rest vel angle angVel} :
    AreNumbers args (mass :: width :: height :: x :: y :: rest) → Motion rest vel angle angVel →
      Phrase .box args (.command (.box mass width height ⟨x, y⟩ vel angle angVel))
  | earthGravity : Phrase .gravity [] (.command (.gravity ForceField.earthAcceleration))
  | gravity {args gx gy} :
    AreNumbers args [gx, gy] → Phrase .gravity args (.command (.gravity ⟨gx, gy⟩))
  | batch {c args count m₀ m₁ r₀ r₁ x₀ x₁ y₀ y₁} :
    Decimal.readInt64? c = some count → AreNumbers args [m₀, m₁, r₀, r₁, x₀, x₁, y₀, y₁] →
      Phrase .batch (c :: "PARTICLE".toList :: args)
        (.batch ⟨count.toNat, ⟨m₀, m₁⟩, ⟨r₀, r₁⟩, ⟨x₀, x₁⟩, ⟨y₀, y₁⟩⟩)
  | otherBatch {c item args count} :
    Decimal.readInt64? c = some count → item ≠ "PARTICLE".toList →
      Phrase .batch (c :: item :: args) .skip

/-- The first word is the keyword and the others are `args`. -/
def StartsWith (line : List Char) (keyword : Keyword) (args : List (List Char)) : Prop :=
  Text.words line = keyword.spelling.toList :: args

/-- The meanings of a line that does not end the scene, be its mass and its ranges proper or
not. -/
inductive Reads (line : List Char) : Directive → Prop
  | blank : Text.words line = [] → Reads line .skip
  | comment {first args} :
    Text.words line = first :: args → first.head? = some '#' → Reads line .skip
  | title {before rest text} :
    line = before ++ (Keyword.title.spelling.toList ++ rest) →
      (∀ c ∈ before, Text.isBlank c = true) → (∀ c ∈ rest.head?, Text.isBlank c = true) →
        Text.Trimmed rest text → text ≠ [] → Reads line (.title (String.ofList text))
  | phrase {keyword args d} : StartsWith line keyword args → Phrase keyword args d → Reads line d

/-- The mass of the shape that a command adds. -/
def Command.mass? {α : Type} : Command α → Option α
  | particle mass _ _ _ => some mass
  | ball mass _ _ _ _ _ => some mass
  | box mass _ _ _ _ _ _ => some mass
  | _ => none

namespace Directive

/-- The mass that a line gives, or the lower end of its range. -/
def mass? : Directive → Option Float32
  | command c => c.mass?
  | batch b => some b.mass.lo
  | _ => none

/-- A line without a proper mass is refused. -/
def checked (d : Directive) : Except LineFault Directive :=
  match d.mass? with
  | some mass => if isMass mass then .ok d else .error (.mass ⟨mass⟩)
  | none => .ok d

/-! ## Readers of phrases -/

theorem mapM_readFloat?_eq_some {args : List (List Char)} {xs : List Float32} :
    args.mapM Decimal.readFloat? = some xs ↔ AreNumbers args xs := by
  induction args generalizing xs with
  | nil => cases xs <;> simp [AreNumbers]
  | cons w args ih =>
    rw [List.mapM_cons]
    cases xs with
    | nil => simp [AreNumbers, Option.bind_eq_some_iff]
    | cons x xs =>
      simp only [AreNumbers] at ih
      simp [AreNumbers, Option.bind_eq_some_iff, ih]

theorem numbers_of_areNumbers {name : String} {args : List (List Char)} {xs : List Float32}
    (h : AreNumbers args xs) : numbers name args = .ok xs := by
  rw [numbers, mapM_readFloat?_eq_some.mpr h]

/-- What is not a list of numbers is reported by its keyword. -/
theorem numbers_cases (name : String) (args : List (List Char)) :
    (∃ xs, AreNumbers args xs ∧ numbers name args = .ok xs) ∨
      numbers name args = .error (.malformed name) := by
  cases h : args.mapM Decimal.readFloat? with
  | none => exact .inr (by rw [numbers, h])
  | some xs =>
    have hxs := mapM_readFloat?_eq_some.mp h
    exact .inl ⟨xs, hxs, numbers_of_areNumbers hxs⟩

theorem motion?_eq_some {rest : List Float32} {vel : Vec Float32} {angle angVel : Float32} :
    motion? rest = some (vel, angle, angVel) ↔ Motion rest vel angle angVel := by
  constructor
  · intro h
    unfold motion? at h
    split at h <;> cases h <;> constructor
  · rintro (_ | _ | _ | _) <;> rfl

/-- A list of words either is a phrase after the keyword or is reported by it. -/
def Decides (keyword : Keyword) (args : List (List Char)) (result : Except LineFault Directive) :
    Prop :=
  (∀ d, Phrase keyword args d → result = d.checked) ∧
    ((∀ d, ¬ Phrase keyword args d) → result = .error (.malformed keyword.spelling))

/-- Phrases of numbers alone are decided by the numbers. -/
theorem decides_numbers {keyword : Keyword} {args : List (List Char)}
    {meaning : List Float32 → Except LineFault Directive}
    (hphrase : ∀ d, Phrase keyword args d → ∃ xs, AreNumbers args xs ∧ meaning xs = d.checked)
    (hother : ∀ xs, AreNumbers args xs → (∀ d, ¬ Phrase keyword args d) →
      meaning xs = .error (.malformed keyword.spelling)) :
    Decides keyword args (numbers keyword.spelling args >>= meaning) := by
  constructor
  · intro d hd
    obtain ⟨xs, hxs, hmeaning⟩ := hphrase d hd
    rw [numbers_of_areNumbers hxs]
    exact hmeaning
  · intro h
    obtain ⟨xs, hxs, hnumbers⟩ | hnumbers := numbers_cases keyword.spelling args
    · rw [hnumbers]
      exact hother xs hxs h
    · rw [hnumbers]
      rfl

theorem checkMass_bind (meaning : Float32 → Directive) {mass : Float32}
    (h : (meaning mass).mass? = some mass) :
    (checkMass mass >>= fun m => pure (meaning m)) = (meaning mass).checked := by
  simp only [checked, h, checkMass]
  split <;> rfl

theorem decides_readSize (args : List (List Char)) : Decides .size args (readSize args) := by
  constructor
  · intro d h
    cases h with
    | size hw hh hxs =>
      simp only [readSize, hw, hh, mapM_readFloat?_eq_some.mpr hxs]
      rfl
  · intro h
    unfold readSize
    split
    case h_1 w h' rest =>
      split
      case h_1 width height left top right bottom hw hh hxs =>
        exact absurd (.size hw hh (mapM_readFloat?_eq_some.mp hxs)) (h _)
      case h_2 => rfl
    case h_2 => rfl

theorem decides_readLine (args : List (List Char)) : Decides .line args (readLine args) := by
  refine decides_numbers (fun d h => ?_) (fun xs hxs h => ?_)
  · cases h with
    | line hxs | facingLine hxs => exact ⟨_, hxs, rfl⟩
  · split
    case h_1 => exact absurd (.line hxs) (h _)
    case h_2 => exact absurd (.facingLine hxs) (h _)
    case h_3 => rfl

theorem decides_readParticle (args : List (List Char)) :
    Decides .particle args (readParticle args) := by
  refine decides_numbers (fun d h => ?_) (fun xs hxs h => ?_)
  · cases h with
    | particle hxs | movingParticle hxs =>
      exact ⟨_, hxs, checkMass_bind (fun m => .command (.particle m _ _ _)) rfl⟩
  · split
    case h_1 => exact absurd (.particle hxs) (h _)
    case h_2 => exact absurd (.movingParticle hxs) (h _)
    case h_3 => rfl

theorem decides_readBall (args : List (List Char)) : Decides .ball args (readBall args) := by
  refine decides_numbers (fun d h => ?_) (fun xs hxs h => ?_)
  · cases h with
    | ball hxs hmotion =>
      refine ⟨_, hxs, ?_⟩
      simp only [motion?_eq_some.mpr hmotion]
      exact checkMass_bind (fun m => .command (.ball m _ _ _ _ _)) rfl
  · split
    case h_1 =>
      split
      case h_1 hmotion => exact absurd (.ball hxs (motion?_eq_some.mp hmotion)) (h _)
      case h_2 => rfl
    case h_2 => rfl

theorem decides_readBox (args : List (List Char)) : Decides .box args (readBox args) := by
  refine decides_numbers (fun d h => ?_) (fun xs hxs h => ?_)
  · cases h with
    | box hxs hmotion =>
      refine ⟨_, hxs, ?_⟩
      simp only [motion?_eq_some.mpr hmotion]
      exact checkMass_bind (fun m => .command (.box m _ _ _ _ _ _)) rfl
  · split
    case h_1 =>
      split
      case h_1 hmotion => exact absurd (.box hxs (motion?_eq_some.mp hmotion)) (h _)
      case h_2 => rfl
    case h_2 => rfl

theorem decides_readGravity (args : List (List Char)) :
    Decides .gravity args (readGravity args) := by
  refine decides_numbers (fun d h => ?_) (fun xs hxs h => ?_)
  · cases h with
    | earthGravity => exact ⟨[], rfl, rfl⟩
    | gravity hxs => exact ⟨_, hxs, rfl⟩
  · split
    case h_1 =>
      obtain rfl := List.map_eq_nil_iff.mp hxs
      exact absurd .earthGravity (h _)
    case h_2 => exact absurd (.gravity hxs) (h _)
    case h_3 => rfl

theorem ofList_eq_iff {cs : List Char} {text : String} :
    String.ofList cs = text ↔ cs = text.toList := by
  constructor
  · rintro rfl
    exact String.toList_ofList.symm
  · rintro rfl
    exact String.ofList_toList

theorem decides_readRepeat (args : List (List Char)) :
    Decides .batch args (readRepeat args) := by
  constructor
  · intro d h
    cases h with
    | batch hcount hxs =>
      simp only [readRepeat, hcount, String.ofList_toList, if_true, numbers_of_areNumbers hxs]
      exact checkMass_bind (fun m => .batch ⟨_, ⟨m, _⟩, _, _, _⟩) rfl
    | otherBatch hcount hitem =>
      simp only [readRepeat, hcount, if_neg (mt ofList_eq_iff.mp hitem)]
      rfl
  · intro h
    unfold readRepeat
    split
    case h_1 c item rest =>
      split
      case h_1 => rfl
      case h_2 count hcount =>
        split
        case isTrue hitem =>
          obtain rfl := ofList_eq_iff.mp hitem
          obtain ⟨xs, hxs, hnumbers⟩ | hnumbers := numbers_cases "REPEAT" rest
          · rw [hnumbers]
            dsimp only [bind, Except.bind]
            split
            case h_1 => exact absurd (.batch hcount hxs) (h _)
            case h_2 => rfl
          · rw [hnumbers]
            rfl
        case isFalse hitem => exact absurd (.otherBatch hcount (mt ofList_eq_iff.mpr hitem)) (h _)
    case h_2 => rfl

/-! ## The reader of lines -/

variable {line : List Char} {keyword : Keyword} {args : List (List Char)}

/-- The reader that the first word chooses. -/
def readAfter (line : List Char) (args : List (List Char)) : Keyword → Except LineFault Directive
  | .size => readSize args
  | .title => readTitle line
  | .line => readLine args
  | .particle => readParticle args
  | .ball => readBall args
  | .box => readBox args
  | .gravity => readGravity args
  | .batch => readRepeat args
  | .stop => .ok .stop

theorem ofLine_of_startsWith (h : StartsWith line keyword args) :
    ofLine line = readAfter line args keyword := by
  rw [StartsWith] at h
  cases keyword <;> simp only [ofLine, h] <;> rfl

theorem ofLine_of_unknown {first : List Char} (h : Text.words line = first :: args)
    (hhash : first.head? ≠ some '#') (hunknown : ∀ k : Keyword, first ≠ k.spelling.toList) :
    ofLine line = .error (.unknown (String.ofList first)) := by
  simp only [ofLine, h, if_neg hhash]
  split
  case h_1 hname => exact absurd (ofList_eq_iff.mp hname) (hunknown .size)
  case h_2 hname => exact absurd (ofList_eq_iff.mp hname) (hunknown .title)
  case h_3 hname => exact absurd (ofList_eq_iff.mp hname) (hunknown .line)
  case h_4 hname => exact absurd (ofList_eq_iff.mp hname) (hunknown .particle)
  case h_5 hname => exact absurd (ofList_eq_iff.mp hname) (hunknown .ball)
  case h_6 hname => exact absurd (ofList_eq_iff.mp hname) (hunknown .box)
  case h_7 hname => exact absurd (ofList_eq_iff.mp hname) (hunknown .gravity)
  case h_8 hname => exact absurd (ofList_eq_iff.mp hname) (hunknown .batch)
  case h_9 hname => exact absurd (ofList_eq_iff.mp hname) (hunknown .stop)
  case h_10 => rfl

theorem decides_readAfter (hstop : keyword ≠ .stop) (htitle : keyword ≠ .title) :
    Decides keyword args (readAfter line args keyword) := by
  cases keyword with
  | size => exact decides_readSize args
  | title => exact absurd rfl htitle
  | line => exact decides_readLine args
  | particle => exact decides_readParticle args
  | ball => exact decides_readBall args
  | box => exact decides_readBox args
  | gravity => exact decides_readGravity args
  | batch => exact decides_readRepeat args
  | stop => exact absurd rfl hstop

theorem title_letters : ∀ c ∈ Keyword.title.spelling.toList, Text.isBlank c = false := by
  have hall : Keyword.title.spelling.toList.all (fun c => !Text.isBlank c) = true := by decide
  intro c hc
  exact (Bool.not_eq_true' _).mp (List.all_eq_true.mp hall c hc)

/-- The title is what follows the keyword, whatever precedes it. -/
theorem readTitle_eq {before rest : List Char} (hbefore : ∀ c ∈ before, Text.isBlank c = true) :
    readTitle (before ++ (Keyword.title.spelling.toList ++ rest)) =
      if (Text.trim rest).isEmpty then .error (.malformed "TITLE")
      else .ok (.title (String.ofList (Text.trim rest))) := by
  have hhead : ∀ c ∈ (Keyword.title.spelling.toList ++ rest).head?, Text.isBlank c = false := by
    rintro c ⟨rfl⟩
    decide
  rw [readTitle, Text.trimStart_append hbefore hhead]
  rfl

theorem ofLine_of_reads {d : Directive} (h : Reads line d) : ofLine line = d.checked := by
  cases h with
  | blank hwords =>
    rw [ofLine, hwords]
    rfl
  | comment hwords hhash =>
    simp only [ofLine, hwords, if_pos hhash]
    rfl
  | @title _ rest _ hline hbefore hrest htext hne =>
    have hstart : StartsWith line .title (Text.words rest) := by
      rw [StartsWith, hline]
      exact Text.words_eq_cons hbefore (by decide) title_letters hrest
    rw [ofLine_of_startsWith hstart, readAfter, hline, readTitle_eq hbefore, ← htext.eq_trim,
      if_neg (by rwa [List.isEmpty_iff])]
    rfl
  | @phrase keyword args _ hstart hphrase =>
    have hstop : keyword ≠ .stop := by rintro rfl; cases hphrase
    have htitle : keyword ≠ .title := by rintro rfl; cases hphrase
    rw [ofLine_of_startsWith hstart]
    exact (decides_readAfter hstop htitle).1 d hphrase

/-- A line of a title has text after the keyword, or is reported. -/
theorem reads_title_or_malformed (h : StartsWith line .title args) :
    (∃ d, Reads line d) ∨ ofLine line = .error (.malformed Keyword.title.spelling) := by
  obtain ⟨before, rest, hline, hbefore, -, -, hrest, -⟩ := Text.exists_of_words_eq_cons h
  by_cases hempty : (Text.trim rest).isEmpty = true
  · right
    rw [ofLine_of_startsWith h, readAfter, hline, readTitle_eq hbefore, if_pos hempty]
    rfl
  · left
    rw [List.isEmpty_iff] at hempty
    exact ⟨_, .title hline hbefore hrest (Text.trimmed_trim rest) hempty⟩

/-- A line that starts with a keyword has a meaning, or is reported. -/
theorem reads_or_malformed (h : StartsWith line keyword args) (hstop : keyword ≠ .stop) :
    (∃ d, Reads line d) ∨ ofLine line = .error (.malformed keyword.spelling) := by
  by_cases htitle : keyword = .title
  · subst htitle
    exact reads_title_or_malformed h
  · by_cases hphrase : ∃ d, Phrase keyword args d
    · obtain ⟨d, hd⟩ := hphrase
      exact .inl ⟨d, .phrase h hd⟩
    · right
      rw [ofLine_of_startsWith h]
      exact (decides_readAfter hstop htitle).2 (not_exists.mp hphrase)

/-- What a line can be: one with a meaning, the end of the scene, a keyword without what it takes,
or an unknown word. -/
theorem line_cases (line : List Char) :
    (∃ d, Reads line d) ∨ (∃ args, StartsWith line .stop args) ∨
      (∃ keyword args, StartsWith line keyword args ∧
        ofLine line = .error (.malformed keyword.spelling)) ∨
      ∃ first args, Text.words line = first :: args ∧ first.head? ≠ some '#' ∧
        ∀ keyword : Keyword, first ≠ keyword.spelling.toList := by
  cases hwords : Text.words line with
  | nil => exact .inl ⟨_, .blank hwords⟩
  | cons first args =>
    by_cases hhash : first.head? = some '#'
    · exact .inl ⟨_, .comment hwords hhash⟩
    by_cases hknown : ∃ keyword : Keyword, first = keyword.spelling.toList
    · obtain ⟨keyword, rfl⟩ := hknown
      by_cases hstop : keyword = .stop
      · subst hstop
        exact .inr (.inl ⟨args, hwords⟩)
      · refine (reads_or_malformed hwords hstop).imp_right fun h => ?_
        exact .inr (.inl ⟨keyword, args, hwords, h⟩)
    · exact .inr (.inr (.inr ⟨first, args, rfl, hhash, not_exists.mp hknown⟩))

theorem ne_stop_of_reads {d : Directive} (h : Reads line d) : d ≠ .stop := by
  rintro rfl
  cases h with
  | phrase _ hphrase => cases hphrase

end Directive

end PlanarDynamics
