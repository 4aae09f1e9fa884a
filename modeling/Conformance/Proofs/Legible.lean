/-
# Conformance.Proofs.Legible — values whose sequences can be gone through.

Any value may stand where a node is wanted, and its parts may be missing or hold anything.  Reading
it fails in one place only: a part that should be a sequence holds a value that cannot be gone
through.  A value is legible (`Value.IsLegible`) if its own parts are not of that sort, and clear
(`Value.IsClear`) if the same holds of everything that a comparison can come to from it.

`Reads clear x` is said of a reading that can fail in that one way, and not at all if `clear`.  Each
accessor gets a lemma of this form.
-/
import Conformance.Proofs.Height

namespace Conformance

/-! ## Legible and clear values -/

namespace Value

/-- A sequence: a list, a tuple, a text or a mapping. -/
def IsSequence (v : Value) : Prop :=
  match v.datum with
  | .list _ _ | .tuple _ _ | .text _ | .dict _ _ | .frozen _ => True
  | _ => False

/-- **`IsLegible v`** — where the value counts as a node, its listed values and its options are
missing, count as false or are sequences, and its items are missing, null or a sequence. -/
def IsLegible (v : Value) : Prop :=
  v.kind?.isSome = true →
    (∀ p w, p = .values ∨ p = .options → v.stored? p = some w → w.truthy = false ∨ w.IsSequence) ∧
      ∀ w, v.stored? .items = some w → w = .null ∨ w.IsSequence

/-- **`IsClear v`** — the value and everything that lies beneath it, at any depth, is legible. -/
def IsClear (v : Value) : Prop := Throughout beneath IsLegible v

section Clear

variable {v : Value}

theorem isLegible_of_no_parts (h : ∀ p, v.stored? p = none) : v.IsLegible := by
  intro _
  refine ⟨fun p w _ stored => ?_, fun w stored => ?_⟩
  · rw [h p] at stored
    cases stored
  · rw [h .items] at stored
    cases stored

end Clear

end Value

/-! ## Readings -/

/-- **`Reads clear x`** — only a value that cannot be gone through keeps `x` from an answer, and
nothing does if `clear`. -/
def Reads {α : Type} (clear : Prop) (x : Except Fault α) : Prop :=
  ∀ e, x = .error e → (∃ sortName, e = .notIterable sortName) ∧ ¬ clear

namespace Reads

variable {α β : Type} {clear clear' : Prop} {x : Except Fault α}

theorem ok (a : α) : Reads clear (.ok a : Except Fault α) := by
  intro e h
  cases h

theorem pure (a : α) : Reads clear (Pure.pure a : Except Fault α) := ok a

/-- It is enough if less than `clear` is needed. -/
theorem mono (h : clear' → clear) (hx : Reads clear x) : Reads clear' x := by
  intro e broken
  obtain ⟨sort, unclear⟩ := hx e broken
  exact ⟨sort, fun held => unclear (h held)⟩

theorem bind {f : α → Except Fault β} (hx : Reads clear x)
    (hf : ∀ a, x = .ok a → Reads clear (f a)) : Reads clear (x >>= f) := by
  cases x with
  | ok a => exact hf a rfl
  | error e =>
    intro e' h
    cases h
    exact hx e rfl

theorem map (f : α → β) (hx : Reads clear x) : Reads clear (x.map f) := by
  cases x with
  | ok a => exact ok (f a)
  | error e =>
    intro e' h
    cases h
    exact hx e rfl

theorem allM {l : List β} {f : β → Except Fault Bool} (h : ∀ b ∈ l, Reads clear (f b)) :
    Reads clear (l.allM f) := by
  induction l with
  | nil => exact ok true
  | cons b rest ih =>
    rw [List.allM_cons]
    refine (h b List.mem_cons_self).bind fun v _ => ?_
    cases v with
    | true => exact ih fun c hc => h c (List.mem_cons_of_mem b hc)
    | false => exact ok false

theorem anyM {l : List β} {f : β → Except Fault Bool} (h : ∀ b ∈ l, Reads clear (f b)) :
    Reads clear (l.anyM f) := by
  induction l with
  | nil => exact ok false
  | cons b rest ih =>
    rw [List.anyM_cons]
    refine (h b List.mem_cons_self).bind fun v _ => ?_
    cases v with
    | true => exact ok true
    | false => exact ih fun c hc => h c (List.mem_cons_of_mem b hc)

end Reads

namespace Value

variable {v w : Value}

/-! ## What accessors read -/

theorem gather_reads (v : Value) : Reads v.IsSequence v.gather := by
  intro e h
  unfold gather at h
  split at h
  · cases h
  · rename_i stuck
    cases h
    refine ⟨⟨_, rfl⟩, fun sequence => ?_⟩
    unfold IsSequence at sequence
    unfold elements? at stuck
    split at sequence <;> simp_all

theorem kind?_isSome_of_isOf {k : Kind} (h : v.isOf k = true) : v.kind?.isSome = true := by
  rw [isOf, beq_iff_eq] at h
  rw [h]
  rfl

theorem isSequence_of_truthy {k : Kind} {p : Part} (kind : v.isOf k = true)
    (hp : p = .values ∨ p = .options) (found : v.part? p = some w) (truthy : w.truthy = true)
    (legible : v.IsLegible) : w.IsSequence := by
  have held := (legible (kind?_isSome_of_isOf kind)).1 p w hp (stored?_of_part? found)
  exact held.resolve_left (by simp [truthy])

theorem isSequence_of_items {k : Kind} (kind : v.isOf k = true) (found : v.part? .items = some w)
    (legible : v.IsLegible) : w.IsSequence := by
  have held := (legible (kind?_isSome_of_isOf kind)).2 w (stored?_of_part? found)
  refine held.resolve_left fun null => ?_
  unfold part? at found
  split at found
  · cases found
  · rename_i present
    exact present (null ▸ found)

theorem sequence_reads {k : Kind} {p : Part} (kind : v.isOf k = true)
    (hp : p = .values ∨ p = .options) : Reads v.IsLegible (v.sequence p) := by
  unfold sequence
  split
  · exact .ok _
  · rename_i part found
    split
    · rename_i truthy
      exact (gather_reads part).mono (isSequence_of_truthy kind hp found truthy)
    · exact .ok _

theorem literalValues_reads (v : Value) : Reads v.IsLegible v.literalValues := by
  unfold literalValues
  split
  · rename_i kind
    exact sequence_reads kind (.inl rfl)
  · exact .ok _

theorem enumValues_reads (v : Value) : Reads v.IsLegible v.enumValues := by
  unfold enumValues
  split
  · rename_i kind
    exact sequence_reads kind (.inl rfl)
  · exact .ok _

theorem unionOptions_reads (v : Value) : Reads v.IsLegible v.unionOptions := by
  unfold unionOptions
  split
  · rename_i kind
    exact sequence_reads kind (.inr rfl)
  · exact .ok _

theorem tupleItems?_reads (v : Value) : Reads v.IsLegible v.tupleItems? := by
  unfold tupleItems?
  split
  · rename_i kind
    split
    · exact .ok _
    · rename_i items found
      exact Reads.map some ((gather_reads items).mono (isSequence_of_items kind found))
  · exact .ok _

theorem optionTakes_reads (option v : Value) : Reads option.IsLegible (option.optionTakes v) := by
  unfold optionTakes
  split
  · exact (literalValues_reads option).bind fun _ _ => .pure _
  · split
    · exact .pure _
    · split
      · exact .pure _
      · split <;> exact .pure _

/-- The options of a union lie beneath it. -/
theorem allTaken_reads {options : List Value} (read : v.unionOptions = .ok options)
    (values : List Value) : Reads v.IsClear (allTaken options values) := by
  refine .allM fun w _ => .anyM fun option ho => (optionTakes_reads option w).mono fun clear => ?_
  exact (clear.of_mem (mem_beneath_of_unionOptions read ho)).here

theorem optionOmits_reads (option : Value) : Reads option.IsLegible option.optionOmits := by
  unfold optionOmits
  split
  · exact .pure _
  · split
    · exact (literalValues_reads option).bind fun _ _ => .pure _
    · exact .pure _

theorem omittable_reads (v : Value) : Reads v.IsClear v.omittable := by
  unfold omittable
  split
  · exact .pure _
  · split
    · refine ((unionOptions_reads v).mono Throughout.here).bind fun options read => .anyM ?_
      intro option ho
      refine (optionOmits_reads option).mono fun clear => ?_
      exact (clear.of_mem (mem_beneath_of_unionOptions read ho)).here
    · exact .pure _

end Value

end Conformance
