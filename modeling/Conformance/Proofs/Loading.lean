/-
# Conformance.Proofs.Loading — where each setting comes from.

Settings are read from one table and from variables, field by field.  The table is the section of
the first candidate that is there, can be read and has a section that is not empty (`selected`).  A
field is taken from its variable, else from the table, else it is as usual; a limit that is no use
counts as absent, and is reported once.

What a mapping does to settings is said once, for either source (`apply_eq_ok`).  The choice of the
table is by induction on the candidates: as long as nothing was chosen, what was found last holds no
field (`firstSection_eq_ok`).
-/
import Conformance.Proofs.Inspect
import Conformance.Proofs.Outcome
import Conformance.Settings

namespace Conformance

/-- A computation that answers has answered in both of its parts, with the records of both. -/
theorem Logged.eq_ok_of_bind {ε α β : Type} {x : Logged ε α} {f : α → Logged ε β}
    {records : List Record} {b : β} (h : x >>= f = ⟨records, .ok b⟩) :
    ∃ before a after, x = ⟨before, .ok a⟩ ∧ f a = ⟨after, .ok b⟩ ∧ records = before ++ after := by
  obtain ⟨before, e | a⟩ := x
  · rw [Logged.bind_error] at h
    cases h
  · rw [Logged.bind_ok] at h
    obtain ⟨rfl, outcome⟩ := Logged.mk.inj h
    exact ⟨before, a, (f a).records, rfl, by rw [← outcome], rfl⟩

namespace Settings

/-! ## Fields of a mapping -/

/-- The fields that a value holds; one that is no mapping holds none. -/
def tableOf : Value → Entries
  | .dict _ entries => entries
  | _ => []

/-- **`usableDepth v`** — the positive integer that a value amounts to. -/
def usableDepth (v : Value) : Option Int := v.toInteger.toOption.filter fun n => 1 ≤ n

/-- The report about a limit that is there and no use. -/
def rejection (depth? : Option Value) : List Record :=
  match depth? with
  | some v => if (usableDepth v).isSome then [] else [.ignoredDepth v]
  | none => []

section Fields

variable {s t : Settings} {v : Value} {n : Int} {records : List Record}

theorem make_of_pos (trace : Value) (pos : 1 ≤ n) :
    make (.int n) trace = .ok ⟨.int n, trace, n, rfl, pos⟩ :=
  dif_pos pos

theorem make_of_not_pos (trace : Value) (low : ¬ 1 ≤ n) :
    make (.int n) trace = .error (.showing (.int n) (.badDepth (.int n))) :=
  dif_neg low

theorem ignoreDepth_eq_ok (h : s.ignoreDepth v = ⟨records, .ok t⟩) :
    t = s ∧ records = [.ignoredDepth v] := by
  cases h
  exact ⟨rfl, rfl⟩

theorem integerFrom_eq_ok {amount : Option Int} (h : integerFrom v = .ok amount) :
    amount = v.toInteger.toOption := by
  unfold integerFrom at h
  split at h
  · rename_i read
    rw [read]
    exact (Except.ok.inj h).symm
  · cases h
  · rename_i read
    rw [read]
    exact (Except.ok.inj h).symm

/-- A limit is taken if it is of use, and reported if not; the flag stays. -/
theorem applyDepth_eq_ok (h : s.applyDepth v = ⟨records, .ok t⟩) :
    t.maxDepth = ((usableDepth v).map Value.int).getD s.maxDepth ∧ t.trace = s.trace ∧
      records = rejection (some v) := by
  obtain ⟨before, amount, after, read, applied, rfl⟩ := Logged.eq_ok_of_bind h
  obtain ⟨rfl, outcome⟩ := Logged.mk.inj read
  have amount_eq := integerFrom_eq_ok outcome
  have ignored (useless : usableDepth v = none) (h : s.ignoreDepth v = ⟨after, .ok t⟩) :
      t.maxDepth = ((usableDepth v).map Value.int).getD s.maxDepth ∧ t.trace = s.trace ∧
        [] ++ after = rejection (some v) := by
    obtain ⟨rfl, rfl⟩ := ignoreDepth_eq_ok h
    simp [useless, rejection]
  cases amount with
  | none => exact ignored (by rw [usableDepth, ← amount_eq]; rfl) applied
  | some n =>
    dsimp only at applied
    by_cases pos : 1 ≤ n
    · have useful : usableDepth v = some n := by simp [usableDepth, ← amount_eq, pos]
      rw [make_of_pos s.trace pos] at applied
      cases applied
      simp [useful, rejection]
    · rw [make_of_not_pos s.trace pos] at applied
      exact ignored (by simpa [usableDepth, ← amount_eq] using pos) applied

/-- The limit of a mapping is applied first, then the flag. -/
theorem apply_dict (s : Settings) (id : Ident) (entries : Entries) :
    s.apply (.dict id entries) =
      ((Toml.under? entries "max_depth").elim (pure s) s.applyDepth >>= fun u =>
        pure ((Toml.under? entries "trace").elim u fun v => u.withTrace (flagFrom v))) := by
  unfold apply Toml.under?
  dsimp only
  cases Entries.find? entries (.text "max_depth") <;>
    cases Entries.find? entries (.text "trace") <;> rfl

/-- **What a mapping does to settings**: each field of it decides about one of them alone. -/
theorem apply_eq_ok {mapping : Value} (h : s.apply mapping = ⟨records, .ok t⟩) :
    t.maxDepth = (((Toml.under? (tableOf mapping) "max_depth").bind usableDepth).map
        Value.int).getD s.maxDepth ∧
      t.trace = ((Toml.under? (tableOf mapping) "trace").map fun v => .bool (flagFrom v)).getD
        s.trace ∧
      records = rejection (Toml.under? (tableOf mapping) "max_depth") := by
  cases mapping with
  | dict id entries =>
    rw [apply_dict] at h
    obtain ⟨before, u, after, depth, flag, rfl⟩ := Logged.eq_ok_of_bind h
    have limit : u.maxDepth = (((Toml.under? entries "max_depth").bind usableDepth).map
        Value.int).getD s.maxDepth ∧ u.trace = s.trace ∧
        before = rejection (Toml.under? entries "max_depth") := by
      cases found : Toml.under? entries "max_depth" with
      | none =>
        rw [found] at depth
        cases depth
        exact ⟨rfl, rfl, rfl⟩
      | some v =>
        rw [found] at depth
        exact applyDepth_eq_ok depth
    obtain ⟨limit, kept, rfl⟩ := limit
    cases flag
    rw [tableOf, ← limit, ← kept, List.append_nil]
    cases Toml.under? entries "trace" <;> exact ⟨rfl, rfl, rfl⟩
  | _ =>
    cases h
    exact ⟨rfl, rfl, rfl⟩

end Fields

/-! ## Variables -/

/-- A variable, unless it is empty. -/
def variableValue? (w : Surroundings) (name : String) : Option Value :=
  ((w.valueOf? name).filter fun s => !s.isEmpty).map .text

section Variables

variable (w : Surroundings)

theorem under?_append (es fs : Entries) (name : String) :
    Toml.under? (es ++ fs) name = (Toml.under? es name).or (Toml.under? fs name) := by
  simp [Toml.under?, Entries.find?, Option.map_or]

theorem under?_fieldOfVariable (name field key : String) :
    Toml.under? (fieldOfVariable w name field) key =
      if field = key then variableValue? w name else none := by
  unfold fieldOfVariable variableValue?
  cases w.valueOf? name with
  | none => simp [Toml.under?, Entries.find?]
  | some s =>
    by_cases empty : s.isEmpty = true
    · simp [empty, Option.filter_some, Toml.under?, Entries.find?]
    · by_cases same : field = key <;>
        simp [empty, same, Option.filter_some, Toml.under?, Entries.find?, Value.agrees_text]

theorem under?_fieldsOfVariables (stem : String) :
    Toml.under? (fieldsOfVariables w stem) "max_depth" = variableValue? w (stem ++ "MAX_DEPTH") ∧
      Toml.under? (fieldsOfVariables w stem) "trace" = variableValue? w (stem ++ "TRACE") := by
  simp [fieldsOfVariables, under?_append, under?_fieldOfVariable]

end Variables

/-! ## The table of a file -/

/-- The value at the end of a path of names. -/
def within : List String → Value → Option Value
  | [], v => some v
  | name :: rest, v => (Toml.under? (tableOf v) name).bind (within rest)

/-- The contents of a candidate that is there and can be read. -/
def Candidate.data? (c : Candidate) : Option Entries :=
  match c.entry with
  | .file (.text text) => (Toml.parse text).toOption
  | _ => none

/-- The section of a candidate. -/
def Candidate.section? (c : Candidate) : Option Value :=
  c.data?.bind fun data =>
    if c.name = projectFile then within ["tool", "assignable", "check"] (.dict .transient data)
    else
      match Toml.under? data "check" with
      | some (.dict id entries) => some (.dict id entries)
      | _ => some (.dict .transient data)

/-- **`selected candidates`** — the table of the first candidate whose section is not empty. -/
def selected (candidates : List Candidate) : Entries :=
  tableOf ((candidates.findSome? fun c => c.section?.filter Value.truthy).getD .null)

/-- Reports about files. -/
def AboutFiles (records : List Record) : Prop :=
  ∀ r ∈ records, ∃ shown fault, r = .unreadable shown fault

section Files

variable {c : Candidate} {cs : List Candidate} {records : List Record}

theorem aboutFiles_nil : AboutFiles [] := List.forall_mem_nil _

theorem aboutFiles_append {more : List Record} (h : AboutFiles records) (h' : AboutFiles more) :
    AboutFiles (records ++ more) :=
  List.forall_mem_append.mpr ⟨h, h'⟩

/-- Reading a candidate gives its contents; what goes wrong is reported. -/
theorem readEntry_eq_ok {data? : Option Entries}
    (h : readEntry c.shown c.entry = ⟨records, .ok data?⟩) :
    data? = c.data? ∧ AboutFiles records := by
  obtain ⟨shown, name, entry⟩ := c
  cases entry with
  | missing =>
    cases h
    exact ⟨rfl, aboutFiles_nil⟩
  | directory =>
    cases h
    exact ⟨rfl, List.forall_mem_singleton.mpr ⟨shown, .isDirectory, rfl⟩⟩
  | refused =>
    cases h
    exact ⟨rfl, List.forall_mem_singleton.mpr ⟨shown, .refused, rfl⟩⟩
  | hidden => cases h
  | file contents =>
    cases contents with
    | notText => cases h
    | text text =>
      simp only [readEntry, readContents] at h
      simp only [Candidate.data?]
      split at h
      · rename_i data parsed
        cases h
        exact ⟨by rw [parsed]; rfl, aboutFiles_nil⟩
      · rename_i malformed
        cases h
        exact ⟨by rw [malformed]; rfl, List.forall_mem_singleton.mpr ⟨shown, .malformed, rfl⟩⟩
      · cases h

/-- A value that counts as false holds no field. -/
theorem tableOf_of_not_truthy {v : Value} (h : v.truthy = false) : tableOf v = [] := by
  cases v with
  | dict id entries => simpa [tableOf, Value.truthy, Value.datum] using h
  | _ => rfl

section Paths

variable {entries table : Entries} {name : String} {i j : Ident}

/-- A path goes on in the table under its first name; a name that is missing ends it. -/
theorem within_member (h : memberOrEmpty entries name = .dict j table) (next : String)
    (rest : List String) :
    within (name :: next :: rest) (.dict i entries) = within (next :: rest) (.dict j table) := by
  unfold memberOrEmpty at h
  simp only [within, tableOf]
  cases found : Toml.under? entries name with
  | none =>
    rw [found] at h
    cases h
    rfl
  | some v =>
    rw [found] at h
    cases h
    rfl

/-- A path ends at a value that is no table. -/
theorem within_of_not_table (h : ∀ j table, memberOrEmpty entries name ≠ .dict j table)
    (next : String) (rest : List String) :
    within (name :: next :: rest) (.dict i entries) = none := by
  unfold memberOrEmpty at h
  simp only [within, tableOf]
  cases found : Toml.under? entries name with
  | none => rfl
  | some v =>
    cases v with
    | dict j table => exact absurd (by rw [found]; rfl) (h j table)
    | _ => rfl

/-- What stands under a name and counts as true is there. -/
theorem filter_under? (entries : Entries) (name : String) :
    (Toml.under? entries name).filter Value.truthy =
      if (memberOrEmpty entries name).truthy then some (memberOrEmpty entries name) else none := by
  unfold memberOrEmpty
  cases Toml.under? entries name with
  | none => rfl
  | some v => rw [Option.filter_some, Option.getD_some]

end Paths

/-- The section of a project file stands at the end of a path of names. -/
theorem projectSection_eq_ok {data : Entries} {own : Value} (h : projectSection data = .ok own) :
    (within ["tool", "assignable", "check"] (.dict .transient data)).filter Value.truthy =
      if own.truthy then some own else none := by
  unfold projectSection at h
  split at h
  · rename_i tool
    rw [within_member tool]
    split at h
    · rename_i table
      rw [within_member table]
      obtain rfl := Except.ok.inj h
      show ((Toml.under? _ "check").bind some).filter Value.truthy = _
      rw [Option.bind_fun_some, filter_under?]
      rfl
    · cases h
  · rename_i other
    rw [within_of_not_table other]
    obtain rfl := Except.ok.inj h
    rfl

/-- The section is looked up as it is defined, down to what counts as empty. -/
theorem sectionOf_eq_ok {data : Entries} {own : Value} (read : c.data? = some data)
    (h : sectionOf c.name data = .ok own) :
    c.section?.filter Value.truthy = if own.truthy then some own else none := by
  rw [Candidate.section?, read, Option.bind_some]
  unfold sectionOf at h
  split at h
  · rename_i project
    rw [if_pos project]
    exact projectSection_eq_ok h
  · rename_i other
    rw [if_neg other]
    obtain rfl := Except.ok.inj h
    have whole : (match Toml.under? data "check" with
        | some (.dict id entries) => some (.dict id entries)
        | _ => some (.dict .transient data)) = some (ownSection data) := by
      unfold ownSection
      rcases Toml.under? data "check" with _ | v
      · rfl
      · cases v <;> rfl
    rw [whole, Option.filter_some]

/-- **The first section that is not empty is chosen.** -/
theorem firstSection_eq_ok {found own : Value} (empty : tableOf found = [])
    (h : firstSection found cs = ⟨records, .ok own⟩) :
    tableOf own = selected cs ∧ AboutFiles records := by
  induction cs generalizing found records with
  | nil =>
    cases h
    exact ⟨empty, aboutFiles_nil⟩
  | cons c rest ih =>
    obtain ⟨before, data?, after, read, goesOn, rfl⟩ := Logged.eq_ok_of_bind h
    obtain ⟨same, about⟩ := readEntry_eq_ok read
    cases data? with
    | none =>
      have skipped : selected (c :: rest) = selected rest := by
        simp [selected, Candidate.section?, ← same]
      obtain ⟨chosen, aboutLater⟩ := ih empty goesOn
      exact ⟨chosen.trans skipped.symm, aboutFiles_append about aboutLater⟩
    | some data =>
      obtain ⟨none, v, later, looked, ends, rfl⟩ := Logged.eq_ok_of_bind goesOn
      obtain ⟨rfl, outcome⟩ := Logged.mk.inj looked
      have own_section := sectionOf_eq_ok same.symm outcome
      cases truthy : v.truthy with
      | true =>
        simp only [truthy, if_true] at ends own_section
        cases ends
        exact ⟨by simp [selected, own_section], aboutFiles_append about aboutFiles_nil⟩
      | false =>
        simp only [truthy, Bool.false_eq_true, if_false] at ends own_section
        have skipped : selected (c :: rest) = selected rest := by simp [selected, own_section]
        obtain ⟨chosen, aboutLater⟩ := ih (tableOf_of_not_truthy truthy) ends
        exact ⟨chosen.trans skipped.symm, aboutFiles_append about aboutLater⟩

end Files

/-! ## Settings as they are loaded -/

/-- **Settings are loaded field by field.**  A limit comes from its variable, or else from the table
of a file, where it is of use, and is 128 otherwise.  A flag comes from its variable, or else from
the table.  What is reported is, in this order, files that could not be read, a limit of the table
that is no use, and one of the variable. -/
theorem load_eq_ok {w : Surroundings} {path : Option String} {records : List Record} {s : Settings}
    (h : load w path = ⟨records, .ok s⟩) :
    let table := selected (candidates w path)
    let depthVariable := variableValue? w "ASSIGNABLE_MAX_DEPTH"
    let traceVariable := variableValue? w "ASSIGNABLE_TRACE"
    s.maxDepth = .int (((depthVariable.bind usableDepth).or
      ((Toml.under? table "max_depth").bind usableDepth)).getD 128) ∧
    s.trace = .bool ((traceVariable.or (Toml.under? table "trace")).elim false flagFrom) ∧
    (∃ notes, records = notes ++ rejection (Toml.under? table "max_depth") ++
      rejection depthVariable ∧ AboutFiles notes) ∧
    ∃ n, s.maxDepth.integer? = some n ∧ 1 ≤ n := by
  intro table depthVariable traceVariable
  obtain ⟨before, fromTable, after, file, own, rfl⟩ := Logged.eq_ok_of_bind h
  obtain ⟨notes, v, later, chosen, applied, rfl⟩ := Logged.eq_ok_of_bind file
  obtain ⟨table_eq, about⟩ := firstSection_eq_ok rfl chosen
  obtain ⟨depth, trace, rejected⟩ := apply_eq_ok applied
  obtain ⟨depth', trace', rejected'⟩ := apply_eq_ok own
  obtain ⟨named, named'⟩ :
      Toml.under? (fieldsOfVariables w variableStem) "max_depth" = depthVariable ∧
        Toml.under? (fieldsOfVariables w variableStem) "trace" = traceVariable :=
    under?_fieldsOfVariables w variableStem
  rw [table_eq] at depth trace rejected
  rw [tableOf, named] at depth' rejected'
  rw [tableOf, named'] at trace'
  refine ⟨?_, ?_, ⟨notes, ?_, about⟩, s.positive⟩
  · rw [depth', depth]
    cases depthVariable.bind usableDepth <;>
      cases (Toml.under? table "max_depth").bind usableDepth <;> rfl
  · rw [trace', trace]
    cases traceVariable <;> cases Toml.under? table "trace" <;> rfl
  · rw [rejected, rejected']

/-- A variable that is no use hides neither the limit of the file nor its flag. -/
theorem useless_variable_loaded :
    let w : Workspace := ⟨[], [(["assignable.toml"], .text "max_depth = 7\ntrace = true")],
      [("ASSIGNABLE_MAX_DEPTH", "0"), ("ASSIGNABLE_TRACE", "")]⟩
    ∃ records s, load w.surroundings none = ⟨records, .ok s⟩ ∧ s.maxDepth = .int 7 ∧
      s.trace = .bool true := by
  intro w
  have answer : (load w.surroundings none).outcome.toOption.map
      (fun s => (s.maxDepth.integer?, s.trace.truthy)) = some (some 7, true) := by decide +kernel
  obtain ⟨s, outcome, fields⟩ := Option.map_eq_some_iff.mp answer
  have loaded : load w.surroundings none = ⟨(load w.surroundings none).records, .ok s⟩ := by
    rw [← toOption_eq_some_iff.mp outcome]
  obtain ⟨depth, trace, -, -⟩ := load_eq_ok loaded
  rw [depth, trace] at fields
  obtain ⟨limit, flag⟩ := Prod.mk.inj fields
  refine ⟨_, s, loaded, ?_, ?_⟩
  · rw [depth, Option.some.inj limit]
  · rw [trace]
    exact congrArg Value.bool flag

end Settings

end Conformance
