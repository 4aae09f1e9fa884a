/-
# Conformance.Proofs.Naming — the grammar of kind names is recognised exactly.

A text is in snake case if it consists of words joined by single underscores (`IsSnakeCase`).  That
says nothing of how the text is read.  The recogniser reads it once from left to right and only
remembers whether it stands inside a word, so what it has still to see is a text that goes on from
there: the rest of a word, which may be empty inside one, and further words (`Continues`).  One step
of the scan is one character of such a text (`continues_cons`), and by induction the scan accepts
what goes on from its state, one final newline apart (`scan_iff`).

The newline is let through by the recogniser only: no name of a kind ends with one.  A text that
names no kind is refused for one of two reasons, and for the same one whether it is parsed or a node
is asked for its kind by it.
-/
import Conformance.Proofs.Outcome
import Conformance.Session

namespace Conformance

namespace KindName

/-! ## The grammar -/

/-- **`IsWord w`** — one or more of the characters `a`-`z` and `0`-`9`; letters and digits outside
ASCII are neither small letters nor digits here. -/
def IsWord (w : String) : Prop :=
  w ≠ "" ∧ ∀ c ∈ w.toList, c.isLower = true ∨ c.isDigit = true

/-- **`IsSnakeCase s`** — one or more words, joined by single underscores. -/
def IsSnakeCase (s : String) : Prop :=
  ∃ words : List String, words ≠ [] ∧ (∀ w ∈ words, IsWord w) ∧ s = "_".intercalate words

theorem isWordChar_iff {c : Char} : isWordChar c = true ↔ c.isLower = true ∨ c.isDigit = true := by
  have classes : isWordChar c = (c.isLower || c.isDigit) := rfl
  rw [classes, Bool.or_eq_true]

theorem isWord_iff {w : String} :
    IsWord w ↔ w.toList ≠ [] ∧ ∀ c ∈ w.toList, isWordChar c = true := by
  simp [IsWord, isWordChar_iff]

theorem not_isWordChar_newline : isWordChar '\n' = false := by decide

/-! ## What the scan has still to see -/

/-- **`Continues inWord cs`** — the characters go on from inside a word or from where one has to
begin: a run of word characters, which may be empty only inside a word, and further words. -/
def Continues (inWord : Bool) (cs : List Char) : Prop :=
  ∃ (run : List Char) (words : List (List Char)), (run = [] → inWord = true) ∧
    (∀ c ∈ run, isWordChar c = true) ∧ (∀ w ∈ words, w ≠ [] ∧ ∀ c ∈ w, isWordChar c = true) ∧
    cs = ['_'].intercalate (run :: words)

variable {inWord : Bool} {c : Char} {cs : List Char} {s : String}

theorem continues_nil : Continues inWord [] ↔ inWord = true := by
  constructor
  · rintro ⟨run, words, first, -, -, joined⟩
    cases words with
    | nil => exact first (by simpa using joined.symm)
    | cons w words => simp at joined
  · intro inside
    exact ⟨[], [], fun _ => inside, by simp, by simp, by simp⟩

/-- One character further: it belongs to the run, or it is the underscore after one. -/
theorem continues_cons : Continues inWord (c :: cs) ↔
    isWordChar c = true ∧ Continues true cs ∨ c = '_' ∧ inWord = true ∧ Continues false cs := by
  constructor
  · rintro ⟨run, words, first, wordChars, later, joined⟩
    cases run with
    | nil =>
      cases words with
      | nil => simp at joined
      | cons w words =>
        -- The run is over, and the next word is the run that goes on behind the underscore.
        obtain ⟨nonempty, chars⟩ := later w List.mem_cons_self
        obtain ⟨rfl, rfl⟩ : c = '_' ∧ cs = ['_'].intercalate (w :: words) := by simpa using joined
        exact .inr ⟨rfl, first rfl, w, words, fun none => absurd none nonempty, chars,
          fun u hu => later u (List.mem_cons_of_mem _ hu), rfl⟩
    | cons d run =>
      obtain ⟨head, tail⟩ := List.forall_mem_cons.mp wordChars
      obtain ⟨rfl, rfl⟩ : c = d ∧ cs = ['_'].intercalate (run :: words) := by
        cases words <;> simpa using joined
      exact .inl ⟨head, run, words, fun _ => rfl, tail, later, rfl⟩
  · rintro (⟨wordChar, run, words, -, wordChars, later, rfl⟩ |
      ⟨rfl, inside, run, words, first, wordChars, later, rfl⟩)
    · refine ⟨c :: run, words, by simp, List.forall_mem_cons.mpr ⟨wordChar, wordChars⟩, later, ?_⟩
      cases words <;> simp
    · have nonempty : run ≠ [] := fun none => by cases first none
      exact ⟨[], run :: words, fun _ => inside, by simp,
        List.forall_mem_cons.mpr ⟨⟨nonempty, wordChars⟩, later⟩, by simp⟩

/-- **`Passes inWord cs`** — the characters go on from the state, one final newline apart. -/
def Passes (inWord : Bool) (cs : List Char) : Prop :=
  Continues inWord cs ∨ ∃ body, cs = body ++ ['\n'] ∧ Continues inWord body

theorem passes_nil : Passes inWord [] ↔ inWord = true := by
  simp [Passes, continues_nil]

theorem passes_newline : Passes inWord ['\n'] ↔ inWord = true := by
  simp [Passes, continues_cons, not_isWordChar_newline, continues_nil]

/-- The final newline stays where it is when a character before it is read. -/
theorem passes_cons (last : c :: cs ≠ ['\n']) : Passes inWord (c :: cs) ↔
    isWordChar c = true ∧ Passes true cs ∨ c = '_' ∧ inWord = true ∧ Passes false cs := by
  have behind : (∃ body, c :: cs = body ++ ['\n'] ∧ Continues inWord body) ↔
      ∃ body, cs = body ++ ['\n'] ∧ Continues inWord (c :: body) := by
    constructor
    · rintro ⟨body, split, continues⟩
      cases body with
      | nil => exact absurd split last
      | cons d body =>
        obtain ⟨rfl, rfl⟩ := List.cons.inj split
        exact ⟨body, rfl, continues⟩
    · rintro ⟨body, rfl, continues⟩
      exact ⟨c :: body, rfl, continues⟩
  rw [Passes, behind]
  simp only [continues_cons, Passes]
  grind

/-- **The scan accepts what goes on from its state.** -/
theorem scan_iff : scan inWord cs = true ↔ Passes inWord cs := by
  fun_induction scan inWord cs with
  | case1 inWord => rw [passes_nil]
  | case2 inWord => rw [passes_newline]
  | case3 inWord c rest last wordChar ih =>
    have other : c ≠ '_' := by
      rintro rfl
      cases wordChar
    rw [passes_cons (by simpa using last), ih]
    simp [wordChar, other]
  | case4 inWord c rest last wordChar underscore ih =>
    obtain ⟨rfl, rfl⟩ : c = '_' ∧ inWord = true := by simpa using underscore
    rw [passes_cons (by simp), ih]
    simp [wordChar]
  | case5 inWord c rest last wordChar underscore =>
    have stuck : c = '_' → inWord = false := by simpa using underscore
    rw [passes_cons (by simpa using last)]
    constructor
    · exact fun refused => absurd refused Bool.false_ne_true
    · rintro (⟨inside, -⟩ | ⟨joint, inside, -⟩)
      · exact absurd inside wordChar
      · exact (stuck joint).symm.trans inside

/-! ## Texts -/

theorem continues_iff_isSnakeCase : Continues false s.toList ↔ IsSnakeCase s := by
  constructor
  · rintro ⟨run, words, first, wordChars, later, joined⟩
    have nonempty : run ≠ [] := fun none => by cases first none
    refine ⟨(run :: words).map String.ofList, by simp, ?_, ?_⟩
    · intro w hw
      obtain ⟨chars, member, rfl⟩ := List.mem_map.mp hw
      rw [isWord_iff, String.toList_ofList]
      exact List.forall_mem_cons.mpr ⟨⟨nonempty, wordChars⟩, later⟩ chars member
    · rw [← String.toList_inj, joined, String.toList_intercalate, List.map_map]
      simp [Function.comp_def]
  · rintro ⟨words, nonempty, each, rfl⟩
    obtain ⟨w, words, rfl⟩ := List.exists_cons_of_ne_nil nonempty
    obtain ⟨wordW, later⟩ := List.forall_mem_cons.mp each
    rw [isWord_iff] at wordW
    refine ⟨w.toList, words.map String.toList, fun none => absurd none wordW.1, wordW.2, ?_, ?_⟩
    · intro u hu
      obtain ⟨v, hv, rfl⟩ := List.mem_map.mp hu
      exact isWord_iff.mp (later v hv)
    · rw [String.toList_intercalate]
      rfl

/-- **The recogniser accepts snake case**, also with one newline at the end. -/
theorem isSnake_iff :
    isSnake s = true ↔ IsSnakeCase s ∨ ∃ body, s = body ++ "\n" ∧ IsSnakeCase body := by
  rw [isSnake, scan_iff, Passes, continues_iff_isSnakeCase]
  refine or_congr_right ⟨?_, ?_⟩
  · rintro ⟨body, split, continues⟩
    refine ⟨String.ofList body, ?_, ?_⟩
    · rw [← String.toList_inj, split]
      simp
    · rw [← continues_iff_isSnakeCase, String.toList_ofList]
      exact continues
  · rintro ⟨body, rfl, snake⟩
    exact ⟨body.toList, by simp, continues_iff_isSnakeCase.mpr snake⟩

/-! ## Kinds by name -/

theorem isSnake_name (k : Kind) : isSnake k.name = true := by
  cases k <;> decide

/-- No name of a kind ends with a newline. -/
theorem name_ne_append_newline (k : Kind) (body : String) : k.name ≠ body ++ "\n" := by
  have table : ∀ k ∈ Kind.all, k.name.toList.getLast? ≠ some '\n' := by decide
  intro same
  refine table k (Kind.mem_all k) ?_
  rw [same]
  simp

/-- **`refusal s`** — why a text that names no kind is refused: it is not in snake case, or else
unknown. -/
def refusal (s : String) : NameFault :=
  if isSnake s then .unknownKind s else .notSnake "type kind" (.text s)

theorem refusal_message : (refusal s).message =
    if isSnake s then Text.quoted s ++ " is not a valid TypeKind"
    else "type kind must be lower_snake (got: " ++ Text.quoted s ++ ")" := by
  unfold refusal
  split <;> rfl

theorem ofName?_eq_none (unknown : ∀ k : Kind, s ≠ k.name) : Kind.ofName? s = none := by
  refine Option.eq_none_iff_forall_ne_some.mpr fun k found => ?_
  exact unknown k (Kind.ofName?_eq_some_iff.mp found)

theorem assertSnake_text (what s : String) : assertSnake what (.text s) =
    if isSnake s then .ok () else .error (.badName (.notSnake what (.text s))) := by
  have value : isSnakeValue (.text s) = .ok (isSnake s) := rfl
  rw [assertSnake, value]
  cases isSnake s <;> rfl

/-- A text is parsed by looking it up, since all names are in snake case. -/
theorem parse_text (s : String) : parse (.text s) =
    match Kind.ofName? s with
    | some k => .ok k
    | none => .error (.badName (refusal s)) := by
  have displayed : (Value.text s).displayed = s := rfl
  rw [parse, assertSnake_text, displayed]
  cases snake : isSnake s with
  | true =>
    rw [refusal, snake]
    cases Kind.ofName? s <;> rfl
  | false =>
    have unknown : ∀ k : Kind, s ≠ k.name := by
      rintro k rfl
      cases snake.symm.trans (isSnake_name k)
    rw [ofName?_eq_none unknown, refusal, snake]
    rfl

theorem parse_eq_ok_iff {k : Kind} : parse (.text s) = .ok k ↔ s = k.name := by
  rw [parse_text, ← Kind.ofName?_eq_some_iff]
  cases Kind.ofName? s <;> simp

theorem parse_of_unknown (unknown : ∀ k : Kind, s ≠ k.name) :
    parse (.text s) = .error (.badName (refusal s)) := by
  rw [parse_text, ofName?_eq_none unknown]

/-- A kind is asked for by its name as it is parsed, and refused with the same fault. -/
theorem resolve_text (s : String) : resolve (.text s) =
    match parse (.text s) with
    | .error (.badName fault) => .error (.badKind fault)
    | result => result := rfl

end KindName

/-- Asking a node for its kind by a text: the text is resolved once the node is there. -/
theorem Session.run_hasKind {s : Session} {node kind : Expr} {v : Value} {name : String}
    {next last : Nat} (made : node.eval s.scope s.next = .ok (v, next))
    (named : kind.eval s.scope next = .ok (.text name, last)) :
    s.run (.hasKind node kind) =
      match KindName.resolve (.text name) with
      | .ok k => (⟨s.scope, last⟩, .truth (v.isOf k))
      | .error failure => (s, .failed failure) := by
  rw [Session.run, Step.perform, Build.bind_eq_of_ok made, Build.bind_eq_of_ok named]
  cases KindName.resolve (.text name) <;> rfl

namespace KindName

/-- **Names of kinds are recognised exactly.**  A text passes for a name if it is in snake case, one
final newline apart.  It is parsed to the kind that is called so, and a text that no kind is called
is refused in words that depend on whether it passes.  A node is asked for its kind by a text in the
same way: whatever the node, the text is refused in the same cases and in the same words, and any
other text asks whether the node is of the kind that is called so. -/
theorem recognised_exactly (name : String) :
    isSnakeValue (.text name) = .ok (isSnake name) ∧
    (isSnake name = true ↔
      IsSnakeCase name ∨ ∃ body, name = body ++ "\n" ∧ IsSnakeCase body) ∧
    (∀ k, parse (.text name) = .ok k ↔ name = k.name) ∧
    (∀ body k, parse (.text (body ++ "\n")) ≠ .ok k) ∧
    ((∀ k : Kind, name ≠ k.name) → parse (.text name) = .error (.badName (refusal name))) ∧
    (Failure.badName (refusal name)).message =
      (if isSnake name then Text.quoted name ++ " is not a valid TypeKind"
      else "type kind must be lower_snake (got: " ++ Text.quoted name ++ ")") ∧
    (Failure.badKind (refusal name)).message = (Failure.badName (refusal name)).message ∧
    ∀ (s : Session) (node kind : Expr) (v : Value) (next last : Nat),
      node.eval s.scope s.next = .ok (v, next) → kind.eval s.scope next = .ok (.text name, last) →
        (∀ k : Kind, name = k.name →
          s.run (.hasKind node kind) = (⟨s.scope, last⟩, .truth (v.kind? == some k))) ∧
        ((∀ k : Kind, name ≠ k.name) →
          s.run (.hasKind node kind) = (s, .failed (.badKind (refusal name)))) := by
  refine ⟨rfl, isSnake_iff, fun k => parse_eq_ok_iff, ?_, parse_of_unknown, refusal_message, rfl,
    ?_⟩
  · intro body k parsed
    exact name_ne_append_newline k body (parse_eq_ok_iff.mp parsed).symm
  · intro s node kind v next last made named
    rw [Session.run_hasKind made named, resolve_text]
    constructor
    · intro k known
      rw [parse_eq_ok_iff.mpr known]
      rfl
    · intro unknown
      rw [parse_of_unknown unknown]

/-- The name of a kind with a newline passes for a name and is none: a node of that kind cannot be
asked for by it, and can be by the name itself. -/
theorem newline_names_no_kind :
    let node : Expr := .build (.of .string) []
    isSnake "string\n" = true ∧
      Session.empty.run (.hasKind node (.text "string\n")) =
        (.empty, .failed (.badKind (.unknownKind "string\n"))) ∧
      (Session.empty.run (.hasKind node (.text "string"))).2 = .truth true := by
  intro node
  have unknown : ∀ k : Kind, "string\n" ≠ k.name := fun k =>
    (name_ne_append_newline k "string").symm
  have refused := (recognised_exactly "string\n").2.2.2.2.2.2.2 .empty node (.text "string\n") _ _ _
    rfl rfl
  have known := (recognised_exactly "string").2.2.2.2.2.2.2 .empty node (.text "string") _ _ _
    rfl rfl
  refine ⟨by decide, refused.2 unknown, ?_⟩
  rw [known.1 .string rfl]
  rfl

end KindName

end Conformance
