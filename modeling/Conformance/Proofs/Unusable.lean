/-
# Conformance.Proofs.Unusable — settings that are no use.

A limit that is no positive integer is reported and left out, unless it is an infinite number, which
breaks loading off instead.  A flag that states nothing is not left out at all; it counts as off
(`flagFrom_eq`).

Reading files breaks off too: where it may not be asked what is there, at bytes that are no text, at
an integer with too many digits, and at a project file that keeps something other than a table for
this tool (`Candidate.Breaks`).  Files are looked at up to the first whose section is not empty
(`consulted`), and what comes later is not looked at.  So loading gives settings exactly when none of
these is met (`load_answers_iff`).
-/
import Conformance.Proofs.Loading

namespace Conformance

theorem Logged.outcome_bind_eq_ok {ε α β : Type} {x : Logged ε α} {f : α → Logged ε β} {b : β} :
    (x >>= f).outcome = .ok b ↔ ∃ a, x.outcome = .ok a ∧ (f a).outcome = .ok b := by
  obtain ⟨records, e | a⟩ := x
  · rw [Logged.bind_error]
    simp
  · rw [Logged.bind_ok]
    simp

namespace Value

/-- A number beyond all integers. -/
def IsInfinite (v : Value) : Prop :=
  ∃ x, v.double? = some x ∧ x.isNaN = false ∧ x.isFinite = false

/-- Of all values only an infinite number is refused for being infinite. -/
theorem toInteger_eq_infinite_iff {v : Value} :
    v.toInteger = .error (.broken .infinite) ↔ v.IsInfinite := by
  have text (s : String) : integerOfText s ≠ .error (.broken .infinite) := by
    unfold integerOfText
    split <;> simp
  unfold toInteger IsInfinite integer? double? text?
  cases v.datum with
  | float id x =>
    simp only [integerOfDouble, Option.some.injEq, exists_eq_left']
    cases x.isNaN <;> cases x.isFinite <;> simp
  | text s => simp [text]
  | _ => simp

end Value

namespace Settings

/-! ## A limit that is no use -/

section Limits

variable {s t : Settings} {v : Value} {n : Int}

/-- A limit that is of use is taken, and the flag stays. -/
theorem applyDepth_of_useful (useful : usableDepth v = some n) :
    ∃ pos : 1 ≤ n, s.applyDepth v = ⟨[], .ok ⟨.int n, s.trace, n, rfl, pos⟩⟩ := by
  obtain ⟨read, pos⟩ := Option.filter_eq_some_iff.mp useful
  have amount : integerFrom v = .ok (some n) := by
    rw [integerFrom, toOption_eq_some_iff.mp read]
  refine ⟨by simpa using pos, ?_⟩
  have made := make_of_pos s.trace (by simpa using pos)
  simp only [applyDepth, amount, Logged.quiet, Logged.bind_ok, made]
  rfl

theorem integerFrom_of_error {e : Failure} (refused : v.toInteger = .error e)
    (finite : e ≠ .broken .infinite) : integerFrom v = .ok none := by
  unfold integerFrom
  split
  · rename_i read
    rw [refused] at read
    cases read
  · rename_i read
    rw [refused] at read
    exact absurd (Except.error.inj read) finite
  · rfl

/-- An infinite limit breaks loading off, and any other that is no use is left out. -/
theorem applyDepth_of_useless (useless : usableDepth v = none) :
    (v.IsInfinite → s.applyDepth v = ⟨[], .error (.broken .infinite)⟩) ∧
      (¬ v.IsInfinite → s.applyDepth v = s.ignoreDepth v) := by
  rw [← Value.toInteger_eq_infinite_iff]
  cases read : v.toInteger with
  | ok n =>
    have low : ¬ 1 ≤ n := by
      intro pos
      simp [usableDepth, read, Except.toOption] at useless
      omega
    refine ⟨by simp, fun _ => ?_⟩
    simp only [applyDepth, integerFrom, read, Logged.quiet, Logged.bind_ok,
      make_of_not_pos s.trace low, List.nil_append]
  | error e =>
    constructor
    · rintro ⟨⟩
      rw [applyDepth, integerFrom, read]
      rfl
    · intro finite
      rw [applyDepth, integerFrom_of_error read fun infinite => finite (by rw [infinite])]
      rfl

/-- A limit can be applied if it is of use or is not infinite. -/
theorem applyDepth_answers_iff :
    (∃ t, (s.applyDepth v).outcome = .ok t) ↔ (usableDepth v).isSome = true ∨ ¬ v.IsInfinite := by
  cases useful : usableDepth v with
  | some n =>
    obtain ⟨pos, taken⟩ := applyDepth_of_useful (s := s) useful
    simp [taken]
  | none =>
    obtain ⟨broken, ignored⟩ := applyDepth_of_useless (s := s) useful
    by_cases infinite : v.IsInfinite
    · simp [broken infinite, infinite]
    · simp [ignored infinite, ignoreDepth, infinite]

end Limits

/-! ## A flag that states nothing -/

/-- The texts that switch a flag off. -/
def dismissive : List String := ["0", "false", "f", "no", "n", "off"]

/-- A text without blanks around it and in small letters. -/
def flagWord (s : String) : String :=
  String.ofList ((Text.strip Text.isBlank s.toList).map Char.toLower)

/-- **`flag? v`** — the flag that a value states: a text by a word for on or off, and a number, or a
truth value, by being other than zero.  No other value states one. -/
def flag? (v : Value) : Option Bool :=
  match v.text? with
  | some s =>
    if affirmative.contains (flagWord s) then some true
    else if dismissive.contains (flagWord s) then some false
    else none
  | none => if v.numeric?.isSome then some v.truthy else none

/-- What states no flag counts as off. -/
theorem flagFrom_eq (v : Value) : flagFrom v = (flag? v).getD false := by
  unfold flagFrom flag?
  cases v.text? with
  | some s =>
    dsimp only
    show affirmative.contains (flagWord s) = _
    cases affirmative.contains (flagWord s) <;> cases dismissive.contains (flagWord s) <;> rfl
  | none => cases v.numeric? <;> rfl

/-! ## Mappings and variables -/

section Mappings

variable {s t : Settings} {mapping : Value}

/-- A mapping can be applied if its limit can. -/
theorem apply_answers_iff :
    (∃ t, (s.apply mapping).outcome = .ok t) ↔
      ∀ v, Toml.under? (tableOf mapping) "max_depth" = some v →
        (usableDepth v).isSome = true ∨ ¬ v.IsInfinite := by
  cases mapping with
  | dict id entries =>
    simp only [apply_dict, Logged.outcome_bind_eq_ok, tableOf]
    cases Toml.under? entries "max_depth" with
    | none => simp [Logged.pure_eq]
    | some v =>
      simp only [Option.elim_some, Logged.pure_eq, Option.some.injEq, forall_eq',
        ← applyDepth_answers_iff (s := s)]
      constructor
      · rintro ⟨_, u, applied, _⟩
        exact ⟨u, applied⟩
      · rintro ⟨u, applied⟩
        exact ⟨_, u, applied, rfl⟩
  | _ =>
    refine iff_of_true ⟨s, rfl⟩ ?_
    simp [tableOf, Toml.under?, Entries.find?]

/-- The fields of settings after a mapping was applied. -/
theorem fields_of_apply (h : (s.apply mapping).outcome = .ok t) :
    t.maxDepth = (((Toml.under? (tableOf mapping) "max_depth").bind usableDepth).map
        Value.int).getD s.maxDepth ∧
      t.trace = ((Toml.under? (tableOf mapping) "trace").map fun v =>
        .bool ((flag? v).getD false)).getD s.trace := by
  have applied : s.apply mapping = ⟨(s.apply mapping).records, .ok t⟩ := by rw [← h]
  obtain ⟨depth, trace, -⟩ := apply_eq_ok applied
  simp only [flagFrom_eq] at trace
  exact ⟨depth, trace⟩

/-- A text is never infinite. -/
theorem not_isInfinite_text (text : String) : ¬ (Value.text text).IsInfinite := by
  rintro ⟨x, double, _⟩
  cases double

/-- Variables can always be applied. -/
theorem fromVariables_answers (w : Surroundings) (stem : String) (s : Settings) :
    ∃ t, (fromVariables w stem s).outcome = .ok t := by
  refine apply_answers_iff.mpr fun v found => .inr ?_
  rw [tableOf, (under?_fieldsOfVariables w stem).1] at found
  obtain ⟨text, -, rfl⟩ := Option.map_eq_some_iff.mp found
  exact not_isInfinite_text text

/-- The fields of settings after variables were applied. -/
theorem fields_of_fromVariables {w : Surroundings} {stem : String}
    (h : (fromVariables w stem s).outcome = .ok t) :
    t.maxDepth = (((variableValue? w (stem ++ "MAX_DEPTH")).bind usableDepth).map
        Value.int).getD s.maxDepth ∧
      t.trace = ((variableValue? w (stem ++ "TRACE")).map fun v =>
        .bool ((flag? v).getD false)).getD s.trace := by
  obtain ⟨named, named'⟩ := under?_fieldsOfVariables w stem
  have fields := fields_of_apply h
  rw [tableOf, named, named'] at fields
  exact fields

end Mappings

/-- **What settings that are no use do.**  A mapping can be applied unless its limit is infinite.
Then a limit that is no use leaves the limit as it was, but a flag that states
nothing switches the flag off, whatever it was.  The same holds of variables, which can always be
applied. -/
theorem apply_unusable (s : Settings) (mapping : Value) :
    let depth? := Toml.under? (tableOf mapping) "max_depth"
    let trace? := Toml.under? (tableOf mapping) "trace"
    ((∃ t, (s.apply mapping).outcome = .ok t) ↔
      ∀ v, depth? = some v → (usableDepth v).isSome = true ∨ ¬ v.IsInfinite) ∧
    (∀ t, (s.apply mapping).outcome = .ok t →
      t.maxDepth = ((depth?.bind usableDepth).map Value.int).getD s.maxDepth ∧
      t.trace = (trace?.map fun v => .bool ((flag? v).getD false)).getD s.trace) ∧
    ∀ w stem, ∃ t, (fromVariables w stem s).outcome = .ok t ∧
      t.maxDepth = (((variableValue? w (stem ++ "MAX_DEPTH")).bind usableDepth).map
        Value.int).getD s.maxDepth ∧
      t.trace = ((variableValue? w (stem ++ "TRACE")).map fun v =>
        .bool ((flag? v).getD false)).getD s.trace := by
  intro depth? trace?
  refine ⟨apply_answers_iff, fun t applied => fields_of_apply applied, fun w stem => ?_⟩
  obtain ⟨t, answered⟩ := fromVariables_answers w stem s
  exact ⟨t, answered, fields_of_fromVariables answered⟩

/-- A word that is no flag switches tracing off. -/
theorem maybe_switches_off :
    let s : Settings := standard.withTrace true
    let mapping : Value := .dict .transient [(.text "trace", .text "maybe")]
    ∃ v t, Toml.under? (tableOf mapping) "trace" = some v ∧ flag? v = none ∧
      (s.apply mapping).outcome = .ok t ∧ t.trace ≠ s.trace := by
  intro s mapping
  have off : flagFrom (.text "maybe") = false := by decide
  refine ⟨.text "maybe", s.withTrace (flagFrom (.text "maybe")), rfl, by decide, rfl, ?_⟩
  rw [off]
  simp [s, withTrace]

/-! ## Files -/

/-- Is the value a table? -/
def isTable : Value → Bool
  | .dict _ _ => true
  | _ => false

/-- It may not be asked what the candidate is, or it is a file of bytes that are no text, or one with
an integer of too many digits. -/
def Candidate.Unreadable (c : Candidate) : Prop :=
  c.entry = .hidden ∨ c.entry = .file .notText ∨ ∃ text digits, c.entry = .file (.text text) ∧
    Toml.parse text = .error (.longInteger digits)

/-- The candidate is a project file in which what stands for this tool is no table. -/
def Candidate.Misplaces (c : Candidate) : Prop :=
  c.name = projectFile ∧ ∃ data v, c.data? = some data ∧
    within ["tool", "assignable"] (.dict .transient data) = some v ∧ isTable v = false

/-- **`Candidate.Breaks c`** — loading breaks off at the candidate. -/
def Candidate.Breaks (c : Candidate) : Prop := c.Unreadable ∨ c.Misplaces

/-- **`consulted candidates`** — the candidates that are looked at: those up to the first whose
section is not empty. -/
def consulted : List Candidate → List Candidate
  | [] => []
  | c :: rest =>
    c :: if (c.section?.filter Value.truthy).isSome then [] else consulted rest

section Files

variable {c : Candidate} {data : Entries}

/-- A value stands under a name as a table, or nothing stands there. -/
theorem memberOrEmpty_isTable (entries : Entries) (name : String) :
    isTable (memberOrEmpty entries name) = true ↔
      ∀ v, Toml.under? entries name = some v → isTable v = true := by
  unfold memberOrEmpty
  cases Toml.under? entries name with
  | none => simp [isTable]
  | some v => simp

/-- A project file has a section unless what stands for this tool is no table. -/
theorem projectSection_answers_iff :
    (∃ own, projectSection data = .ok own) ↔
      ∀ v, within ["tool", "assignable"] (.dict .transient data) = some v → isTable v = true := by
  unfold projectSection
  split
  · rename_i j tool found
    have last : within ["assignable"] (.dict j tool) = Toml.under? tool "assignable" := by
      show (Toml.under? tool "assignable").bind some = _
      rw [Option.bind_fun_some]
    rw [within_member found, last, ← memberOrEmpty_isTable]
    split
    · rename_i table
      simp [table, isTable]
    · rename_i other
      refine iff_of_false (by simp) fun table => ?_
      cases v : memberOrEmpty tool "assignable" with
      | dict i entries => exact other i entries v
      | _ =>
        rw [v] at table
        cases table
  · rename_i other
    rw [within_of_not_table other]
    simp

/-- A candidate that can be read gives its contents, if there are any. -/
theorem outcome_readEntry {data? : Option Entries} :
    (readEntry c.shown c.entry).outcome = .ok data? ↔ ¬ c.Unreadable ∧ data? = c.data? := by
  unfold Candidate.Unreadable Candidate.data?
  cases c.entry with
  | missing => simp [readEntry, Logged.pure_eq, eq_comm]
  | directory | refused =>
    simp [readEntry, passOver, Logged.note, Logged.pure_eq, Logged.bind_ok, eq_comm]
  | hidden => simp [readEntry, Logged.quiet]
  | file contents =>
    cases contents with
    | notText => simp [readEntry, readContents, Logged.quiet]
    | text text =>
      cases parsed : Toml.parse text with
      | ok data => simp [readEntry, readContents, parsed, Logged.pure_eq, Except.toOption, eq_comm]
      | error fault =>
        cases fault with
        | malformed =>
          simp [readEntry, readContents, passOver, parsed, Logged.note, Logged.pure_eq,
            Logged.bind_ok, Except.toOption, eq_comm]
        | longInteger digits => simp [readEntry, readContents, parsed, Logged.quiet]

/-- What was read has a section, unless this tool's part of it is no table. -/
theorem sectionOf_answers_iff (read : c.data? = some data) :
    (∃ own, sectionOf c.name data = .ok own) ↔ ¬ c.Misplaces := by
  unfold sectionOf Candidate.Misplaces
  split
  · rename_i project
    rw [projectSection_answers_iff]
    simp [project, read]
  · rename_i other
    simp [other]

/-- **The candidates that are looked at decide whether there is a section at all.** -/
theorem firstSection_answers_iff (found : Value) (cs : List Candidate) :
    (∃ own, (firstSection found cs).outcome = .ok own) ↔ ∀ c ∈ consulted cs, ¬ c.Breaks := by
  induction cs generalizing found with
  | nil => simp [firstSection, consulted, Logged.pure_eq]
  | cons c rest ih =>
    rw [firstSection, consulted, List.forall_mem_cons, Candidate.Breaks, not_or]
    simp only [Logged.outcome_bind_eq_ok, outcome_readEntry]
    by_cases unreadable : c.Unreadable
    · simp [unreadable]
    cases read : c.data? with
    | none =>
      have placed : ¬ c.Misplaces := by
        rintro ⟨_, data, _, other, _⟩
        rw [read] at other
        cases other
      have nothing : c.section? = none := by rw [Candidate.section?, read, Option.bind_none]
      simp [unreadable, placed, nothing, ← ih found]
    | some data =>
      rw [← sectionOf_answers_iff read]
      cases looked : sectionOf c.name data with
      | error failure => simp [unreadable, Logged.outcome_bind_eq_ok, Logged.quiet, looked]
      | ok own =>
        rw [sectionOf_eq_ok read looked]
        cases truthy : own.truthy with
        | true =>
          simp [unreadable, Logged.outcome_bind_eq_ok, Logged.quiet, looked, truthy, Logged.pure_eq]
        | false =>
          simp [unreadable, Logged.outcome_bind_eq_ok, Logged.quiet, looked, truthy, ← ih own]

end Files

/-! ## Loading -/

section Loading

variable {w : Surroundings} {path : Option String}

theorem table_of_firstSection {own : Value} {cs : List Candidate}
    (h : (firstSection .null cs).outcome = .ok own) : tableOf own = selected cs := by
  have found : firstSection .null cs = ⟨(firstSection .null cs).records, .ok own⟩ := by rw [← h]
  exact (firstSection_eq_ok rfl found).1

/-- A file can be applied if a section is found and its limit can be applied. -/
theorem fromFile_answers_iff :
    (∃ u, (fromFile w path).outcome = .ok u) ↔
      (∀ c ∈ consulted (candidates w path), ¬ c.Breaks) ∧
        ∀ v, Toml.under? (selected (candidates w path)) "max_depth" = some v →
          (usableDepth v).isSome = true ∨ ¬ v.IsInfinite := by
  simp only [fromFile, Logged.outcome_bind_eq_ok, ← firstSection_answers_iff .null]
  constructor
  · rintro ⟨u, own, found, applied⟩
    refine ⟨⟨own, found⟩, ?_⟩
    rw [← table_of_firstSection found]
    exact apply_answers_iff.mp ⟨u, applied⟩
  · rintro ⟨⟨own, found⟩, harmless⟩
    rw [← table_of_firstSection found] at harmless
    obtain ⟨u, applied⟩ := apply_answers_iff.mpr harmless
    exact ⟨u, own, found, applied⟩

/-- The fields of settings after a file was applied. -/
theorem fields_of_fromFile {u : Settings} (h : (fromFile w path).outcome = .ok u) :
    let table := selected (candidates w path)
    u.maxDepth = (((Toml.under? table "max_depth").bind usableDepth).map
        Value.int).getD standard.maxDepth ∧
      u.trace = .bool (((Toml.under? table "trace").bind flag?).getD false) := by
  obtain ⟨own, found, applied⟩ := Logged.outcome_bind_eq_ok.mp h
  obtain ⟨depth, trace⟩ := fields_of_apply applied
  rw [table_of_firstSection found] at depth trace
  refine ⟨depth, trace.trans ?_⟩
  cases Toml.under? (selected (candidates w path)) "trace" <;> rfl

end Loading

/-- **When loading gives settings.**  It does unless it comes to a file at which it breaks off, or
the limit in the table of the file is infinite.  Then a limit that is no use
leaves the limit as it was before, first as usual and then as the file has it.  A flag that states
nothing counts as off; in a file that is as before, in a variable it may not be. -/
theorem load_answers_iff (w : Surroundings) (path : Option String) :
    let table := selected (candidates w path)
    let depthVariable := variableValue? w "ASSIGNABLE_MAX_DEPTH"
    let traceVariable := variableValue? w "ASSIGNABLE_TRACE"
    ((∃ s, (load w path).outcome = .ok s) ↔
      (∀ c ∈ consulted (candidates w path), ¬ c.Breaks) ∧
        ∀ v, Toml.under? table "max_depth" = some v →
          (usableDepth v).isSome = true ∨ ¬ v.IsInfinite) ∧
    ∀ s, (load w path).outcome = .ok s → ∃ u, (fromFile w path).outcome = .ok u ∧
      u.maxDepth = (((Toml.under? table "max_depth").bind usableDepth).map
        Value.int).getD standard.maxDepth ∧
      u.trace = .bool (((Toml.under? table "trace").bind flag?).getD false) ∧
      s.maxDepth = ((depthVariable.bind usableDepth).map Value.int).getD u.maxDepth ∧
      s.trace = (traceVariable.map fun v => .bool ((flag? v).getD false)).getD u.trace := by
  intro table depthVariable traceVariable
  constructor
  · rw [← fromFile_answers_iff]
    simp only [load, Logged.outcome_bind_eq_ok]
    constructor
    · rintro ⟨s, u, fromFile, _⟩
      exact ⟨u, fromFile⟩
    · rintro ⟨u, fromFile⟩
      obtain ⟨s, answered⟩ := fromVariables_answers w variableStem u
      exact ⟨s, u, fromFile, answered⟩
  · intro s loaded
    obtain ⟨u, fromFile, answered⟩ := Logged.outcome_bind_eq_ok.mp loaded
    obtain ⟨limit, flag⟩ := fields_of_fromFile fromFile
    exact ⟨u, fromFile, limit, flag, fields_of_fromVariables answered⟩

/-- A project file with a number for this tool, a file that is no text, and an infinite limit. -/
theorem three_files_break_off :
    let holding (name : String) (contents : Contents) : Surroundings :=
      (⟨[], [([name], contents)], []⟩ : Workspace).surroundings
    (∀ s, (load (holding "pyproject.toml" (.text "[tool]\nassignable = 3\n")) none).outcome ≠
      .ok s) ∧
    (∀ s, (load (holding "assignable.toml" .notText) none).outcome ≠ .ok s) ∧
    ∀ s, (load (holding "assignable.toml" (.text "max_depth = inf")) none).outcome ≠ .ok s := by
  intro holding
  have refused {w : Surroundings} (h : (load w none).outcome.toOption.isNone = true) :
      ∀ s, (load w none).outcome ≠ .ok s := by
    intro s loaded
    rw [loaded] at h
    cases h
  exact ⟨refused (by decide +kernel), refused (by decide +kernel), refused (by decide +kernel)⟩

end Settings

end Conformance
