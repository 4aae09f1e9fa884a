/-
# Conformance.Proofs.Acceptance — what a true answer of each rule amounts to.

`Accepts P r a b` says what rule `r` asks of the pair `(a, b)`, with `P` in place of the comparison
one level down.  Every rule asks for it positively, and only of pairs that are lower together than
`(a, b)`; `Accepts.imp` says both at once.

`Run.Tells` ties a run to a proposition: an answer, if there is one, is true exactly when the
proposition holds, and only allowed faults stand in the place of an answer.  `decide_settles` is the
meeting point: where a rule applies, asking it about two nodes tells what `Accepts` says, provided
that the comparison one level down tells what `P` says.
-/
import Conformance.Check
import Conformance.Proofs.Inspect

namespace Conformance

/-! ## Runs that tell -/

namespace Run

variable {allowed : Fault → Prop} {x y : Run Bool} {P Q : Prop}

/-- **`Tells allowed x P`** — the answer of the run is true exactly when `P` holds, and only allowed
faults keep it from answering. -/
def Tells (allowed : Fault → Prop) (x : Run Bool) (P : Prop) : Prop :=
  match x.outcome with
  | .ok v => v = true ↔ P
  | .error e => allowed e

/-- A rule that decides: its run is one that tells. -/
def Settles (allowed : Fault → Prop) (x : Run (Option Bool)) (P : Prop) : Prop :=
  ∃ y : Run Bool, x = some <$> y ∧ Tells allowed y P

theorem tells_pure {v : Bool} (h : v = true ↔ P) : Tells allowed (pure v) P := h

theorem Tells.congr (h : Tells allowed x P) (hPQ : P ↔ Q) : Tells allowed x Q := by
  rwa [Tells, ← hPQ]

theorem Tells.both (hx : Tells allowed x P) (hy : Tells allowed y Q) :
    Tells allowed (Run.both x y) (P ∧ Q) := by
  obtain ⟨records, outcome⟩ := x
  cases outcome with
  | error e => exact hx
  | ok v =>
    have hv : v = true ↔ P := hx
    cases v with
    | true =>
      have hP : P := hv.mp rfl
      exact Tells.congr (x := ⟨records ++ y.records, y.outcome⟩) hy (by simp [hP])
    | false =>
      -- The answer is no, and the second run is left out.
      have hP : ¬ P := fun h => nomatch hv.mpr h
      have no : Tells allowed (pure false) (P ∧ Q) := tells_pure (by simp [hP])
      exact no

theorem Tells.either (hx : Tells allowed x P) (hy : Tells allowed y Q) :
    Tells allowed (Run.either x y) (P ∨ Q) := by
  obtain ⟨records, outcome⟩ := x
  cases outcome with
  | error e => exact hx
  | ok v =>
    have hv : v = true ↔ P := hx
    cases v with
    | true =>
      -- The answer is yes, and the second run is left out.
      have hP : P := hv.mp rfl
      have yes : Tells allowed (pure true) (P ∨ Q) := tells_pure (by simp [hP])
      exact yes
    | false =>
      have hP : ¬ P := fun h => nomatch hv.mpr h
      exact Tells.congr (x := ⟨records ++ y.records, y.outcome⟩) hy (by simp [hP])

section Lists

variable {α β : Type} {f : β → Run Bool} {g : α → β} {R : α → Prop} {as : List α}

theorem tells_allM_map (h : ∀ a ∈ as, Tells allowed (f (g a)) (R a)) :
    Tells allowed ((as.map g).allM f) (∀ a ∈ as, R a) := by
  induction as with
  | nil => exact tells_pure (by simp)
  | cons a rest ih =>
    have head := h a List.mem_cons_self
    have tail := ih fun b hb => h b (List.mem_cons_of_mem a hb)
    have split : ((a :: rest).map g).allM f = Run.both (f (g a)) ((rest.map g).allM f) :=
      List.allM_cons
    rw [split]
    exact (head.both tail).congr List.forall_mem_cons.symm

theorem tells_anyM_map (h : ∀ a ∈ as, Tells allowed (f (g a)) (R a)) :
    Tells allowed ((as.map g).anyM f) (∃ a ∈ as, R a) := by
  induction as with
  | nil => exact tells_pure (by simp)
  | cons a rest ih =>
    have head := h a List.mem_cons_self
    have tail := ih fun b hb => h b (List.mem_cons_of_mem a hb)
    have split : ((a :: rest).map g).anyM f = Run.either (f (g a)) ((rest.map g).anyM f) :=
      List.anyM_cons
    rw [split]
    exact (head.either tail).congr (by simp)

end Lists

theorem settles_map (h : Tells allowed x P) : Settles allowed (some <$> x) P := ⟨x, rfl, h⟩

theorem settles_pure {v : Bool} (h : v = true ↔ P) : Settles allowed (pure (some v)) P :=
  ⟨pure v, rfl, tells_pure h⟩

end Run

/-! ## What the rules ask for -/

namespace Wrapper

/-- The node that stands for what a wrapper admits beside its inner values. -/
def probe (w : Wrapper) : Schema := .plain .transient w.absence

end Wrapper

namespace Schema

/-- What a wrapper holds, if the node is such a wrapper. -/
def inside? (w : Wrapper) : Schema → Option Schema
  | .wrap _ v inner => if v = w then some inner else none
  | _ => none

/-- The options of a union. -/
def options : Schema → List Schema
  | .union _ options => options
  | _ => []

theorem eq_wrap_of_inside? {w : Wrapper} {s inner : Schema} (h : s.inside? w = some inner) :
    ∃ id, s = .wrap id w inner := by
  cases s with
  | wrap id v x =>
    rw [inside?] at h
    split at h
    · rename_i same
      subst same
      cases h
      exact ⟨id, rfl⟩
    · cases h
  | _ => cases h

theorem mem_children_of_inside? {w : Wrapper} {s inner : Schema} (h : s.inside? w = some inner) :
    inner ∈ s.children := by
  obtain ⟨id, rfl⟩ := eq_wrap_of_inside? h
  exact List.mem_singleton_self _

theorem mem_children_of_mem_options {s o : Schema} (h : o ∈ s.options) : o ∈ s.children := by
  cases s with
  | union id options => exact h
  | _ => cases h

theorem height_present_le (s : Schema) : s.present.height ≤ s.height := by
  cases s with
  | wrap id w inner =>
    cases w with
    | optional => exact Nat.le_succ _
    | nullable => exact Nat.le_refl _
  | _ => exact Nat.le_refl _

/-- Where names are distinct, a field is found under its name. -/
theorem lookup_of_mem {fields : List (String × Schema)} {f : String × Schema}
    (distinct : (fields.map Prod.fst).Nodup) (h : f ∈ fields) : fields.lookup f.1 = some f.2 := by
  obtain ⟨before, after, rfl⟩ := List.append_of_mem h
  refine List.lookup_eq_some_iff.mpr ⟨before, after, rfl, fun g hg => ?_⟩
  rw [List.map_append, List.map_cons, List.nodup_append] at distinct
  have apart := distinct.2.2 g.1 (List.mem_map_of_mem hg) f.1 List.mem_cons_self
  simpa using Ne.symm apart

/-- A merged object is no higher than the higher of the two. -/
theorem height_merged_lt {fields more : List (String × Schema)} {i j : Ident} {n : Nat}
    (hl : (object i fields).height < n) (hr : (object j more).height < n) :
    (merged fields more).height < n := by
  cases n with
  | zero => omega
  | succ n =>
    rw [Nat.lt_succ_iff, height_le_iff] at hl hr ⊢
    intro c hc
    obtain ⟨f, hf, rfl⟩ := List.mem_map.mp hc
    rcases mem_mergeFields hf with hf | hf
    · exact hl _ (List.mem_map_of_mem hf)
    · exact hr _ (List.mem_map_of_mem hf)

/-- Everything conforms to the node. -/
def isTop (s : Schema) : Bool := s.kind? == some .unknown || s.kind? == some .any

/-- The node conforms to everything. -/
def isBottom (s : Schema) : Bool := s.kind? == some .never || s.kind? == some .any

/-- The listed values of a literal, against a target. -/
def literalFits (values : List Value) : Schema → Bool
  | .literal _ members | .enum _ members => Value.allAmong true members values
  | .plain _ sort => values.length == 1 && values.all fun v => v.inPrimitive (some sort.kind)
  | .union _ options => values.all fun v => options.any fun o => o.takes v
  | _ => false

/-- The members of an enumeration, against a target. -/
def enumFits (values : List Value) : Schema → Bool
  | .enum _ members => Value.allAmong false members values
  | .plain _ .string => values.all Value.isText
  | .plain _ .number => values.all Value.isNumber
  | .union _ options => values.all fun v => options.any fun o => o.takes v
  | _ => false

/-- The undefined value, against a target; in a union an option of the given kind takes it. -/
def undefinedFits (option : Kind) : Schema → Bool
  | .plain _ .undefined => true
  | .union _ options => options.any fun o => o.kind? == some option
  | _ => false

end Schema

namespace Rule

open Schema

section Accepts

variable (P : Schema → Schema → Prop)

/-- A target wrapper takes what stands for absence and whatever its inner node takes. -/
def IntoWrapper (w : Wrapper) (a b : Schema) : Prop :=
  match b.inside? w with
  | some inner => a.kind? = some w.absence.kind ∨ P a inner
  | none => False

/-- A source wrapper against a like one by the inner nodes, against anything else by the inner node
and what stands for absence. -/
def FromWrapper (w : Wrapper) (a b : Schema) : Prop :=
  match a.inside? w, b.inside? w with
  | some x, some y => P x y
  | some x, none => P x b ∧ P w.probe b
  | none, _ => False

/-- One field of the target against the fields of the source. -/
def FieldFits (source : List (String × Schema)) (field : String × Schema) : Prop :=
  match source.lookup field.1 with
  | none => field.2.omittable = true
  | some s => (field.2.omittable = true ∨ s.omittable = false) ∧ P s.present field.2.present

/-- Two nodes of one container kind, part by part. -/
def PairFits (a b : Schema) : Prop :=
  match a, b with
  | .array _ x, .array _ y => P x y
  | .tuple _ xs, .tuple _ ys => List.Forall₂ P xs ys
  | .object _ fields, .object _ more => ∀ f ∈ more, FieldFits P fields f
  | .record _ k v, .record _ l w => P k l ∧ P v w
  | _, _ => False

/-- The merged object of two objects, against a target. -/
def MergedFits (left right b : Schema) : Prop :=
  match left, right with
  | .object _ fields, .object _ more => P (merged fields more) b
  | _, _ => False

/-- An intersection as source. -/
def FromSides (a b : Schema) : Prop :=
  match a with
  | .intersection _ left right => MergedFits P left right b ∨ P left b ∨ P right b
  | _ => False

/-- An intersection as target. -/
def IntoSides (a b : Schema) : Prop :=
  match b with
  | .intersection _ left right => P a left ∧ P a right
  | _ => False

/-- **`Accepts P r a b`** — what rule `r` asks of a pair that it applies to, where `P` is the
comparison one level down. -/
def Accepts (r : Rule) (a b : Schema) : Prop :=
  match r with
  | .identity | .customPair => a.id.same b.id = true
  | .topBottom => b.isTop = true ∨ a.isBottom = true
  | .optionalTarget => IntoWrapper P .optional a b
  | .nullableTarget => IntoWrapper P .nullable a b
  | .literalSource => a.listed ≠ [] ∧ literalFits a.listed b = true
  | .enumSource => a.listed ≠ [] ∧ enumFits a.listed b = true
  | .primitivePair | .primitiveFallback => a.kind? = b.kind?
  | .undefinedSource => b.undefinedFits .undefined = true
  | .undefinedSourceNullUnion => b.undefinedFits .null = true
  | .optionalSource => FromWrapper P .optional a b
  | .nullableSource => FromWrapper P .nullable a b
  | .arrayPair | .tuplePair | .objectPair | .recordPair => PairFits P a b
  | .arrayToUnion => ∃ o ∈ b.options, o.kind? = some .array ∧ P a o
  | .unionSource => a.options ≠ [] ∧ ∀ o ∈ a.options, P o b
  | .unionTarget => ∃ o ∈ b.options, P a o
  | .intersectionSource => FromSides P a b
  | .intersectionTarget => IntoSides P a b
  | .unionToArray | .otherwise => False

end Accepts

/-! ## Pairs below a pair -/

section Below

variable {P Q : Schema → Schema → Prop} {a b : Schema}

theorem forall₂_imp_of_mem {xs ys : List Schema} (h : ∀ x ∈ xs, ∀ y ∈ ys, P x y → Q x y)
    (hxy : List.Forall₂ P xs ys) : List.Forall₂ Q xs ys := by
  rw [List.forall₂_iff_zip] at hxy ⊢
  refine ⟨hxy.1, fun {x y} hp => ?_⟩
  obtain ⟨hx, hy⟩ := List.of_mem_zip hp
  exact h x hx y hy (hxy.2 hp)

theorem IntoWrapper.imp {w : Wrapper}
    (h : ∀ x y, x.height + y.height < a.height + b.height → P x y → Q x y)
    (hab : IntoWrapper P w a b) : IntoWrapper Q w a b := by
  unfold IntoWrapper at hab ⊢
  split at hab
  · rename_i inner hb
    have lower := height_lt_of_mem (mem_children_of_inside? hb)
    exact hab.imp_right (h a inner (by omega))
  · exact hab

theorem FromWrapper.imp {w : Wrapper}
    (h : ∀ x y, x.height + y.height < a.height + b.height → P x y → Q x y)
    (hab : FromWrapper P w a b) : FromWrapper Q w a b := by
  unfold FromWrapper at hab ⊢
  split at hab
  · rename_i x y hx hy
    have lowerX := height_lt_of_mem (mem_children_of_inside? hx)
    have lowerY := height_lt_of_mem (mem_children_of_inside? hy)
    exact h x y (by omega) hab
  · rename_i x hx _
    have lower := height_lt_of_mem (mem_children_of_inside? hx)
    -- The node that stands for absence has no parts, and the wrapper has one.
    have flat : w.probe.height = 0 := rfl
    exact ⟨h x b (by omega) hab.1, h w.probe b (by omega) hab.2⟩
  · exact hab

theorem FieldFits.imp {source : List (String × Schema)} {field : String × Schema}
    (h : ∀ s, (field.1, s) ∈ source → P s.present field.2.present → Q s.present field.2.present)
    (hf : FieldFits P source field) : FieldFits Q source field := by
  unfold FieldFits at hf ⊢
  split at hf
  · exact hf
  · rename_i s found
    exact ⟨hf.1, h s (mem_of_lookup found) hf.2⟩

theorem PairFits.imp (h : ∀ x y, x.height + y.height < a.height + b.height → P x y → Q x y)
    (hab : PairFits P a b) : PairFits Q a b := by
  have below {x y : Schema} (hx : x ∈ a.children) (hy : y ∈ b.children) : P x y → Q x y := by
    have lowerX := height_lt_of_mem hx
    have lowerY := height_lt_of_mem hy
    exact h x y (by omega)
  unfold PairFits at hab ⊢
  split at hab
  · exact below (by simp [children]) (by simp [children]) hab
  · exact forall₂_imp_of_mem (fun x hx y hy => below hx hy) hab
  · rename_i i fields j more
    intro f hf
    refine (hab f hf).imp fun s hs => h s.present f.2.present ?_
    have lowerX : s.height < (object i fields).height :=
      height_lt_of_mem (List.mem_map_of_mem (f := Prod.snd) hs)
    have lowerY : f.2.height < (object j more).height := height_lt_of_mem (List.mem_map_of_mem hf)
    have presentX := height_present_le s
    have presentY := height_present_le f.2
    omega
  · exact ⟨below (by simp [children]) (by simp [children]) hab.1,
      below (by simp [children]) (by simp [children]) hab.2⟩
  · exact hab

theorem FromSides.imp (h : ∀ x y, x.height + y.height < a.height + b.height → P x y → Q x y)
    (hab : FromSides P a b) : FromSides Q a b := by
  unfold FromSides at hab ⊢
  split at hab
  · rename_i i left right
    have lowerL : left.height < (intersection i left right).height :=
      height_lt_of_mem (by simp [children])
    have lowerR : right.height < (intersection i left right).height :=
      height_lt_of_mem (by simp [children])
    refine hab.imp ?_ (Or.imp (h left b (by omega)) (h right b (by omega)))
    intro together
    unfold MergedFits at together ⊢
    split at together
    · have lower := height_merged_lt lowerL lowerR
      exact h _ b (by omega) together
    · exact together
  · exact hab

theorem IntoSides.imp (h : ∀ x y, x.height + y.height < a.height + b.height → P x y → Q x y)
    (hab : IntoSides P a b) : IntoSides Q a b := by
  unfold IntoSides at hab ⊢
  split at hab
  · rename_i i left right
    have lowerL : left.height < (intersection i left right).height :=
      height_lt_of_mem (by simp [children])
    have lowerR : right.height < (intersection i left right).height :=
      height_lt_of_mem (by simp [children])
    exact ⟨h a left (by omega) hab.1, h a right (by omega) hab.2⟩
  · exact hab

/-- The comparison is asked only of pairs that are lower together, and a true answer of it never
speaks against the pair. -/
theorem Accepts.imp {r : Rule}
    (h : ∀ x y, x.height + y.height < a.height + b.height → P x y → Q x y)
    (ha : Accepts P r a b) : Accepts Q r a b := by
  -- Options lie below their union, whichever side it stands on.
  have source {o : Schema} (ho : o ∈ a.options) : P o b → Q o b := by
    have lower := height_lt_of_mem (mem_children_of_mem_options ho)
    exact h o b (by omega)
  have target {o : Schema} (ho : o ∈ b.options) : P a o → Q a o := by
    have lower := height_lt_of_mem (mem_children_of_mem_options ho)
    exact h a o (by omega)
  cases r with
  | optionalTarget => exact IntoWrapper.imp h ha
  | nullableTarget => exact IntoWrapper.imp h ha
  | optionalSource => exact FromWrapper.imp h ha
  | nullableSource => exact FromWrapper.imp h ha
  | arrayPair => exact PairFits.imp h ha
  | tuplePair => exact PairFits.imp h ha
  | objectPair => exact PairFits.imp h ha
  | recordPair => exact PairFits.imp h ha
  | arrayToUnion =>
    obtain ⟨o, ho, kind, hP⟩ := ha
    exact ⟨o, ho, kind, target ho hP⟩
  | unionSource => exact ⟨ha.1, fun o ho => source ho (ha.2 o ho)⟩
  | unionTarget =>
    obtain ⟨o, ho, hP⟩ := ha
    exact ⟨o, ho, target ho hP⟩
  | intersectionSource => exact FromSides.imp h ha
  | intersectionTarget => exact IntoSides.imp h ha
  | _ => exact ha

end Below

end Rule

end Conformance
