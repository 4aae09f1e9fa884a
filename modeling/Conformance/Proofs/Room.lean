/-
# Conformance.Proofs.Room — when a comparison is given up.

A comparison that is not given up has answered every question that it asked, and each of them with
less room than it had itself.  Room is felt only where it runs out: a run that holds its calls comes
out the same with more of them, whatever the limit is called and at whatever depth it stands, as
long as the same levels are left (`outcome_check_eq`).  So a pair whose comparison is not given up
passes this on to the pairs that its rule is sure to ask about (`not_overflows_below`), and nothing
more has to be assumed of these.
-/
import Conformance.Proofs.Limits

namespace Conformance

theorem Run.outcome_bind {α β : Type} (x : Run α) (f : α → Run β) :
    (x >>= f).outcome = x.outcome >>= fun v => (f v).outcome := by
  obtain ⟨records, outcome⟩ := x
  cases outcome <;> rfl

/-- **`Agrees x y`** — if the run `x` holds its calls, the run `y` has the same outcome. -/
def Run.Agrees {α : Type} (x y : Run α) : Prop := ¬ x.Exhausted → y.outcome = x.outcome

theorem Run.Agrees.bind {α β : Type} {x y : Run α} {f g : α → Run β} (hx : x.Agrees y)
    (hf : ∀ v, (f v).Agrees (g v)) : (x >>= f).Agrees (y >>= g) := by
  intro held
  rw [Exhausted, error_bind, not_or, not_exists] at held
  obtain ⟨first, later⟩ := held
  rw [outcome_bind, outcome_bind, hx first]
  cases answered : x.outcome with
  | error e => rfl
  | ok v => exact hf v fun exhausted => later v ⟨answered, exhausted⟩

/-- Inquiries agree if the answers to their questions do. -/
theorem Inquiry.agrees {σ α : Type} {clear : Prop} {may : σ → Prop} {f : (σ → Run Bool) → Run α}
    {sub sub' : σ → Run Bool} (hf : Inquiry clear may f)
    (agree : ∀ q, may q → (sub q).Agrees (sub' q)) : (f sub).Agrees (f sub') :=
  hf.relates (fun _ _ => rfl) Run.Agrees.bind agree

namespace Run.Agrees

variable {x x' y y' : Run Bool}

theorem map {β : Type} (f : Bool → β) (h : x.Agrees x') : (f <$> x).Agrees (f <$> x') := by
  rw [map_eq_pure_bind, map_eq_pure_bind]
  exact h.bind fun _ _ => rfl

theorem both (hx : x.Agrees x') (hy : y.Agrees y') : (Run.both x y).Agrees (Run.both x' y') := by
  refine hx.bind fun v => ?_
  cases v with
  | true => exact hy
  | false => exact fun _ => rfl

theorem anyM {β : Type} {f g : β → Run Bool} {l : List β} (h : ∀ b ∈ l, (f b).Agrees (g b)) :
    (l.anyM f).Agrees (l.anyM g) := by
  induction l with
  | nil => exact fun _ => rfl
  | cons b rest ih =>
    rw [List.forall_mem_cons] at h
    rw [List.anyM_cons, List.anyM_cons]
    refine h.1.bind fun v => ?_
    cases v with
    | true => exact fun _ => rfl
    | false => exact ih h.2

/-- What decides agrees if the decisions do. -/
theorem of_map (h : (some <$> x).Agrees (some <$> x')) : x.Agrees x' := by
  obtain ⟨records, outcome⟩ := x
  obtain ⟨records', outcome'⟩ := x'
  intro held
  have same : (some <$> (⟨records', outcome'⟩ : Run Bool)).outcome =
      (some <$> (⟨records, outcome⟩ : Run Bool)).outcome := by
    refine h fun exhausted => held ?_
    cases outcome <;> cases exhausted
    rfl
  cases outcome <;> cases outcome' <;> cases same <;> rfl

end Run.Agrees

namespace Policy

variable {stack : Stack} {d d' deepest : Int} {trace trace' : Bool} {n room room' : Nat}
  {depth : Int} {a b : Value}

/-- A pair takes no more calls where no decision is reported. -/
theorem callsFor_le_callsFor (fewer : trace' = true → trace = true) :
    (upTo stack d' trace').callsFor a b ≤ (upTo stack d trace).callsFor a b := by
  have both := callsFor_le_iff.mp (Nat.le_refl ((upTo stack d trace).callsFor a b))
  exact callsFor_le_iff.mpr ⟨both.1, fun traced => both.2 (fewer traced)⟩

/-- **More room changes nothing** where there was enough, nor do fewer records; and the outcome
depends on the levels that are left, not on the limit or the depth. -/
theorem outcome_check_eq (depth' : Int) (fewer : trace' = true → trace = true)
    (more : room ≤ room') : ((upTo stack d trace).check n room depth a b).Agrees
      ((upTo stack d' trace').check n room' depth' a b) := by
  -- By induction on the levels; every rule takes the same calls from both.
  induction n generalizing room room' depth depth' a b with
  | zero =>
    intro held
    rw [check, exceeded_upTo] at held
    rw [check, check, exceeded_upTo, exceeded_upTo]
    by_cases short : room < stack.record
    · rw [if_pos short] at held
      exact absurd rfl held
    · rw [if_neg short, if_neg (by omega)]
  | succ n ih =>
    have cost : (upTo stack d' trace').callsFor a b ≤ (upTo stack d trace).callsFor a b :=
      callsFor_le_callsFor fewer
    by_cases short : room < (upTo stack d trace).callsFor a b
    · exact fun held => absurd (check_of_short short) held
    · rw [check_succ, if_neg short, check_succ, if_neg (by omega)]
      have below (q : Question) (_ : Asked q.1 a b q.2) :
          ((upTo stack d trace).check n (room - q.1.held) (depth + 1) q.2.1 q.2.2).Agrees
            ((upTo stack d' trace').check n (room' - q.1.held) (depth' + 1) q.2.1 q.2.2) :=
        ih (depth' + 1) (Nat.sub_le_sub_right more q.1.held)
      exact ((decision_inquires a b).agrees below).bind fun d _ => rfl

/-- With the same room and the same levels left, two comparisons of a pair have one outcome. -/
theorem outcome_check_congr (depth' : Int) :
    ((upTo stack d' trace).check n room depth' a b).outcome =
      ((upTo stack d trace).check n room depth a b).outcome := by
  by_cases exhausted : ((upTo stack d trace).check n room depth a b).Exhausted
  · by_contra other
    -- The first run would have held its calls like the second one.
    have held' : ¬ ((upTo stack d' trace).check n room depth' a b).Exhausted :=
      fun exhausted' => other (exhausted'.trans exhausted.symm)
    exact other (outcome_check_eq depth id (Nat.le_refl _) held').symm
  · exact outcome_check_eq depth' id (Nat.le_refl _) exhausted

/-! ## Passing room on -/

open Schema in
/-- A pair below another one is not given up if it was not given up there: it had less room. -/
theorem not_overflows_below {a b x y : Schema} (r : Rule)
    (deep : (a.height + b.height : Int) ≤ deepest)
    (lower : x.height + y.height < a.height + b.height)
    (held : ¬ ((upTo stack deepest trace).check deepest.toNat (stack.whole - r.held) 1 x.value
      y.value).Exhausted) : ¬ (upTo stack deepest trace).Overflows x.value y.value := by
  have enough : x.value.height + y.value.height < deepest.toNat := by
    rw [height_value, height_value]
    omega
  have levels : deepest.toNat < (upTo stack deepest trace).levelsFrom 0 := by
    rw [levelsFrom_upTo]
    omega
  have less : stack.whole - r.held ≤ stack.whole := Nat.sub_le _ _
  -- Both trees are too low for one level more or less to matter.
  rw [check_eq_of_height enough (enough.trans levels)] at held
  have same : ((upTo stack deepest trace).check _ (upTo stack deepest trace).stack.whole 0 x.value
      y.value).outcome = _ := outcome_check_eq 0 id less held
  rwa [Overflows, same]

end Policy

end Conformance
