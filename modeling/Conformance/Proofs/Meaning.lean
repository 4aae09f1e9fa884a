/-
# Conformance.Proofs.Meaning — which values a descriptor describes.

`Subject` is the type of the values that descriptors describe, `Admits I s x` says that `s`
describes `x`, and `Includes I a b` that `b` describes whatever `a` describes.  None of this looks
at the comparison: it is the other side of what is proved about it.

Numbers are their exact amounts, so the two zeros are one number and so are `1` and `1.0`.  An
object describes maps with text keys; further keys are allowed, and a declared field may be missing
where its type says so.  What symbols are, and what a node of a custom kind or of no kind describes,
is left to an `Interpretation`; so is whether records and objects describe values of one sort.
-/
import Conformance.Proofs.Listed

namespace Conformance

/-- **`Subject`** — what descriptors describe: plain data, lists, tuples, maps, records, and objects
of which nothing is known. -/
inductive Subject where
  | scalar (e : Essence)
  | list (items : List Subject)
  | tuple (items : List Subject)
  | map (entries : List (Subject × Subject))
  | record (entries : List (Subject × Subject))
  | atom (n : Nat)

namespace Subject

/-- A text. -/
def isText : Subject → Bool
  | .scalar (.text _ _) => true
  | _ => false

/-- The text with the given characters. -/
def isNamed (name : String) : Subject → Bool
  | .scalar (.text _ s) => s == name
  | _ => false

/-- What stands under a name. -/
def at? (entries : List (Subject × Subject)) (name : String) : Option Subject :=
  (entries.find? fun e => e.1.isNamed name).map Prod.snd

end Subject

/-- **`Interpretation`** — what the descriptors themselves leave open. -/
structure Interpretation where
  recordsApart : Bool
  symbols : Subject → Prop
  members : Ident → Subject → Prop

/-- A map as records describe it. -/
def Interpretation.recordOf (I : Interpretation) (entries : List (Subject × Subject)) : Subject :=
  if I.recordsApart then .record entries else .map entries

/-! ## What a node describes -/

/-- What a node without parts describes. -/
def Plain.Admits (I : Interpretation) (x : Subject) : Plain → Prop
  | .string => ∃ mark s, x = .scalar (.text mark s)
  | .number => ∃ n, x = .scalar (.number n false)
  | .boolean => ∃ b, x = .scalar (.truth b)
  | .bigint => ∃ k, x = .scalar (.number (.ofInt k) false)
  | .symbol => I.symbols x
  | .undefined => x = .scalar .undefined
  | .null => x = .scalar .null
  | .any | .unknown => True
  | .never => False

namespace Schema

mutual
/-- **`Admits I s x`** — the descriptor describes the value. -/
def Admits (I : Interpretation) (s : Schema) (x : Subject) : Prop :=
  match s with
  | .bare id => I.members id x
  | .plain _ sort => sort.Admits I x
  | .literal _ values => ∃ v ∈ values, x = .scalar (v.essence false)
  | .enum _ values => ∃ v ∈ values, x = .scalar (v.essence false)
  | .wrap _ wrapper inner => Admits I inner x ∨ wrapper.absence.Admits I x
  | .array _ element => ∃ items, x = .list items ∧ ∀ y ∈ items, Admits I element y
  | .tuple _ parts => ∃ items, x = .tuple items ∧ AdmitsEach I parts items
  | .object _ fields =>
    ∃ entries, x = .map entries ∧ (∀ e ∈ entries, e.1.isText = true) ∧ AdmitsFields I fields entries
  | .record _ key val =>
    ∃ entries, x = I.recordOf entries ∧ ∀ e ∈ entries, Admits I key e.1 ∧ Admits I val e.2
  | .union _ options => AdmitsSome I options x
  | .intersection _ left right => Admits I left x ∧ Admits I right x
  | .custom id _ _ _ => I.members id x
termination_by structural s

/-- Each descriptor describes the value in its place. -/
def AdmitsEach (I : Interpretation) (ss : List Schema) (xs : List Subject) : Prop :=
  match ss, xs with
  | [], [] => True
  | s :: rest, x :: more => Admits I s x ∧ AdmitsEach I rest more
  | _, _ => False
termination_by structural ss

/-- One of the descriptors describes the value. -/
def AdmitsSome (I : Interpretation) (ss : List Schema) (x : Subject) : Prop :=
  match ss with
  | [] => False
  | s :: rest => Admits I s x ∨ AdmitsSome I rest x
termination_by structural ss

/-- The entries hold what each field says. -/
def AdmitsFields (I : Interpretation) (fs : List (String × Schema))
    (entries : List (Subject × Subject)) : Prop :=
  match fs with
  | [] => True
  | f :: rest => AdmitsField I f entries ∧ AdmitsFields I rest entries
termination_by structural fs

/-- What stands under the name of the field is described by its type; nothing need stand there if
the field may be left out. -/
def AdmitsField (I : Interpretation) (f : String × Schema) (entries : List (Subject × Subject)) :
    Prop :=
  match f with
  | (name, s) =>
    match Subject.at? entries name with
    | some x => Admits I s x
    | none => s.omittable = true
termination_by structural f
end

variable {I : Interpretation} {x : Subject}

theorem admitsEach_iff {ss : List Schema} {xs : List Subject} :
    AdmitsEach I ss xs ↔ List.Forall₂ (Admits I) ss xs := by
  induction ss generalizing xs with
  | nil => cases xs <;> simp [AdmitsEach]
  | cons s rest ih => cases xs <;> simp [AdmitsEach, ih]

theorem admitsSome_iff {ss : List Schema} : AdmitsSome I ss x ↔ ∃ s ∈ ss, s.Admits I x := by
  induction ss with
  | nil => simp [AdmitsSome]
  | cons s rest ih => simp [AdmitsSome, ih]

theorem admitsFields_iff {fs : List (String × Schema)} {entries : List (Subject × Subject)} :
    AdmitsFields I fs entries ↔ ∀ f ∈ fs, AdmitsField I f entries := by
  induction fs with
  | nil => simp [AdmitsFields]
  | cons f rest ih => simp [AdmitsFields, ih]

theorem admits_tuple {id : Ident} {parts : List Schema} :
    (tuple id parts).Admits I x ↔
      ∃ items, x = .tuple items ∧ List.Forall₂ (Admits I) parts items := by
  simp only [Admits, admitsEach_iff]

theorem admits_union {id : Ident} {options : List Schema} :
    (union id options).Admits I x ↔ ∃ o ∈ options, o.Admits I x := by
  simp only [Admits, admitsSome_iff]

theorem admits_object {id : Ident} {fields : List (String × Schema)} :
    (object id fields).Admits I x ↔ ∃ entries, x = .map entries ∧
      (∀ e ∈ entries, e.1.isText = true) ∧ ∀ f ∈ fields, AdmitsField I f entries := by
  simp only [Admits, admitsFields_iff]

/-- **`Includes I a b`** — the second descriptor describes whatever the first one describes. -/
def Includes (I : Interpretation) (a b : Schema) : Prop := ∀ x, a.Admits I x → b.Admits I x

end Schema

end Conformance
