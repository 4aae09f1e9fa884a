/-
# Conformance.Proofs.Limits — what the two limits do to a comparison.

A comparison reports a pair that lies deeper than the depth limit, and it reports that it is given
up when calls run out.  These are its warnings, and without one the limits have not been felt: the
same run comes out under any higher limit (`check_eq_of_not_felt`).

Neither limit is felt everywhere.  No pair lies too deep where there are more levels than both
values have together (`not_warns_check`); calls do not run out where there are five for each level
that can be reached, and beyond them as many as one pair or one record takes
(`not_overflows_of_room`).  Both follow from what one level of a comparison asks the next
(`warns_check_succ`, `fault_check_succ`).
-/
import Conformance.Proofs.Descent
import Conformance.Proofs.Inquiry

namespace Conformance

/-! ## Warnings and faults of inquiries -/

namespace Run

variable {α β : Type}

/-- **`Warns x`** — the run `x` warns. -/
def Warns (x : Run α) : Prop := ∃ r ∈ x.records, r.level = .warning

/-- **`Exhausted x`** — calls ran out during the run `x`. -/
def Exhausted (x : Run α) : Prop := x.outcome = .error .stackExhausted

/-- **`Felt x`** — one of the two limits was felt during the run `x`. -/
def Felt (x : Run α) : Prop := Warns x ∨ Exhausted x

theorem warns_bind {x : Run α} {f : α → Run β} :
    Warns (x >>= f) ↔ Warns x ∨ ∃ v, x.outcome = .ok v ∧ Warns (f v) := by
  obtain ⟨records, outcome⟩ := x
  cases outcome with
  | error e => simp [Logged.bind_error, Warns]
  | ok v => simp [Logged.bind_ok, Warns, or_and_right, exists_or]

theorem error_bind {x : Run α} {f : α → Run β} {e : Fault} :
    (x >>= f).outcome = .error e ↔
      x.outcome = .error e ∨ ∃ v, x.outcome = .ok v ∧ (f v).outcome = .error e := by
  obtain ⟨records, outcome⟩ := x
  cases outcome with
  | error e' => simp [Logged.bind_error]
  | ok v => simp [Logged.bind_ok]

/-- How a run goes on matters only for the answer that was given. -/
theorem bind_congr_of_ok {x : Run α} {f g : α → Run β}
    (h : ∀ v, x.outcome = .ok v → f v = g v) : x >>= f = x >>= g := by
  obtain ⟨records, outcome⟩ := x
  cases outcome with
  | error e => rfl
  | ok v => rw [Logged.bind_ok, Logged.bind_ok, h v rfl]

theorem felt_bind {x : Run α} {f : α → Run β} :
    Felt (x >>= f) ↔ Felt x ∨ ∃ v, x.outcome = .ok v ∧ Felt (f v) := by
  rw [Felt, warns_bind, Exhausted, error_bind]
  unfold Felt Exhausted
  simp only [and_or_left, exists_or]
  exact or_or_or_comm

end Run

namespace Inquiry

variable {σ α : Type} {clear : Prop} {may : σ → Prop} {f : (σ → Run Bool) → Run α}
  {sub sub' : σ → Run Bool}

/-- An inquiry warns only where one of its questions does. -/
theorem exists_warns (hf : Inquiry clear may f) (h : Run.Warns (f sub)) :
    ∃ q, may q ∧ Run.Warns (sub q) := by
  induction hf with
  | answer x reads =>
    obtain ⟨r, hr, -⟩ := h
    cases hr
  | ask q next hq _ ih =>
    rcases Run.warns_bind.mp h with asked | ⟨v, -, later⟩
    · exact ⟨q, hq, asked⟩
    · exact ih v later

/-- A fault of an inquiry is one of reading, and then not all is clear, or comes from one of the
questions. -/
theorem exists_fault (hf : Inquiry clear may f) {e : Fault}
    (other : clear ∨ ∀ sortName, e ≠ .notIterable sortName) (h : (f sub).outcome = .error e) :
    ∃ q, may q ∧ (sub q).outcome = .error e := by
  induction hf with
  | answer x reads =>
    obtain ⟨⟨sortName, same⟩, unclear⟩ := reads _ h
    rcases other with held | other
    · exact absurd held unclear
    · exact absurd same (other sortName)
  | ask q next hq _ ih =>
    rcases Run.error_bind.mp h with asked | ⟨v, -, later⟩
    · exact ⟨q, hq, asked⟩
    · exact ih v later

/-- An inquiry comes out the same when its questions are answered the same. -/
theorem eq_of_agree (hf : Inquiry clear may f) (agree : ∀ q, may q → sub' q = sub q) :
    f sub' = f sub := by
  refine hf.relates (R := fun x y => y = x) (T := fun x y => y = x) (fun _ => rfl) ?_ agree
  rintro x _ f g rfl later
  exact bind_congr later

/-- An inquiry without a limit felt comes out the same when the answers that feel one are replaced.
-/
theorem eq_of_not_felt (hf : Inquiry clear may f)
    (agree : ∀ q, may q → ¬ Run.Felt (sub q) → sub' q = sub q) (free : ¬ Run.Felt (f sub)) :
    f sub' = f sub := by
  refine hf.relates (R := fun x y => ¬ Run.Felt x → y = x) (T := fun x y => ¬ Run.Felt x → y = x)
    (fun _ _ => rfl) ?_ agree free
  intro x y f g first later free
  rw [Run.felt_bind, not_or, not_exists] at free
  rw [first free.1]
  exact Run.bind_congr_of_ok fun v answered => later v fun felt => free.2 v ⟨answered, felt⟩

end Inquiry

/-! ## Heights of nodes -/

namespace Schema

theorem beneath_value (s : Schema) : s.value.beneath = s.children.map value := by
  cases s with
  | tuple id items =>
    show itemValues items ++ [] = items.map value
    rw [itemValues_eq, List.append_nil]
  | union id options =>
    show itemValues options ++ [] = options.map value
    rw [itemValues_eq, List.append_nil]
  | object id fields =>
    have entries : (shapeOf id (fieldValues fields)).entries?.getD [] = fields.map entry := by
      cases id <;> exact fieldValues_eq fields
    show ((shapeOf id (fieldValues fields)).entries?.getD []).map Prod.snd ++ [] = _
    rw [entries, List.append_nil, List.map_map, children, List.map_map]
    rfl
  | _ => rfl

/-- The node that a tree stands for is as high as the tree. -/
theorem height_value (s : Schema) : s.value.height = s.height := by
  have bounds (n : Nat) : s.value.height ≤ n ↔ s.height ≤ n := by
    induction n generalizing s with
    | zero =>
      rw [Value.height_le_iff, height_le_iff, beneath_value, List.forall_mem_map]
      simp
    | succ n ih =>
      rw [Value.height_le_iff, height_le_iff, beneath_value, List.forall_mem_map]
      simp only [Nat.lt_succ_iff, ih]
  exact Nat.le_antisymm ((bounds _).mpr (Nat.le_refl _)) ((bounds _).mp (Nat.le_refl _))

end Schema

/-! ## What a pair takes -/

namespace Value

/-- **`ListsLiterals v`** — the values that a literal or an enumeration lists are text, numbers,
truth values, null or undefined. -/
def ListsLiterals (v : Value) : Prop := ∀ x ∈ v.listing, x.isLiteral = true

/-- **`HoldsLiterals v`** — the value and everything beneath it lists such values only. -/
def HoldsLiterals (v : Value) : Prop := Throughout beneath ListsLiterals v

/-- The nodes that rules build list nothing. -/
theorem listsLiterals_portable : Portable ListsLiterals := by
  refine ⟨fun left right x hx => ?_, fun k x hx => ?_⟩
  · cases hx
  · have empty : (Value.node .transient (.of k) []).listing = [] := by cases k <;> rfl
    rw [empty] at hx
    cases hx

end Value

theorem Rule.held_le (r : Rule) : r.held ≤ 5 := by
  cases r <;> decide

/-! ## Unions whose options are no unions -/

namespace Value

/-- A union offers no union. -/
def OffersFlat (v : Value) : Prop :=
  v.isOf .union = true → ∀ w ∈ v.beneath, w.isOf .union = false

/-- **`HoldsFlat v`** — in the value and everything beneath it, no option of a union is a union. -/
def HoldsFlat (v : Value) : Prop := Throughout beneath OffersFlat v

/-- The nodes that rules build are objects or have no parts. -/
theorem offersFlat_portable : Portable OffersFlat := by
  refine ⟨fun left right union => ?_, fun k _ w hw => ?_⟩
  · cases union
  · cases hw

/-- **`weight v`** — four for each level of a value, and one for a union at its top. -/
def weight (v : Value) : Nat := 4 * v.height + if v.isOf .union then 1 else 0

theorem weight_le (v : Value) : v.weight ≤ 4 * v.height + 1 := by
  unfold weight
  split <;> omega

theorem weight_of_not_union {v : Value} (h : v.isOf .union = false) : v.weight = 4 * v.height := by
  rw [weight, h]
  rfl

theorem weight_of_union {v : Value} (h : v.isOf .union = true) : v.weight = 4 * v.height + 1 := by
  rw [weight, if_pos h]

end Value

/-- To leave a value for a lower one, a rule spends no more than the weight that it loses. -/
theorem Leaves.weight_le {r : Rule} {v w : Value} (h : Leaves r v w) (flat : v.HoldsFlat)
    (lower : w.height < v.height) : w.weight + r.held ≤ v.weight := by
  have below := w.weight_le
  rcases h with three | ⟨union, beneath⟩
  · have above : 4 * v.height ≤ v.weight := Nat.le_add_right _ _
    omega
  · have held := r.held_le
    rw [Value.weight_of_union union, Value.weight_of_not_union (flat.here union w beneath)]
    omega

/-- So it does to move from one pair to the next. -/
theorem weight_of_moves {r : Rule} {a b : Value} {q : Value × Value} (flatA : a.HoldsFlat)
    (flatB : b.HoldsFlat) (h : Moves r a b q) :
    q.1.weight + q.2.weight + r.held ≤ a.weight + b.weight := by
  cases h with
  | @both x y left right =>
    have held := r.held_le
    have lowX := x.weight_le
    have lowY := y.weight_le
    have highA : 4 * a.height ≤ a.weight := Nat.le_add_right _ _
    have highB : 4 * b.height ≤ b.weight := Nat.le_add_right _ _
    show x.weight + y.weight + r.held ≤ _
    omega
  | @source x left leaves =>
    have spent := leaves.weight_le flatA left
    show x.weight + b.weight + r.held ≤ _
    omega
  | @target y right leaves =>
    have spent := leaves.weight_le flatB right
    show a.weight + y.weight + r.held ≤ _
    omega

namespace Schema

/-- What a tree that was built lists is text, numbers, truth values, null or undefined. -/
theorem WellFormed.holdsLiterals {s : Schema} (h : s.WellFormed) : s.value.HoldsLiterals := by
  induction h with
  | @intro s sound _ ih =>
    refine .intro (fun x hx => ?_) fun v hv => ?_
    · rw [listing_value] at hx
      exact (sound.mayList hx).1
    · rw [beneath_value] at hv
      obtain ⟨c, hc, rfl⟩ := List.mem_map.mp hv
      exact ih c hc

/-- A node that lists nothing holds what its parts hold. -/
theorem holdsLiterals_of_children {s : Schema} (nothing : s.listed = [])
    (h : ∀ c ∈ s.children, c.value.HoldsLiterals) : s.value.HoldsLiterals := by
  refine .intro (fun x hx => ?_) fun v hv => ?_
  · rw [listing_value, nothing] at hx
    cases hx
  · rw [beneath_value] at hv
    obtain ⟨c, hc, rfl⟩ := List.mem_map.mp hv
    exact h c hc

/-- A node that offers no union. -/
def OffersFlat : Schema → Prop
  | .union _ options => ∀ o ∈ options, o.kind? ≠ some .union
  | _ => True

theorem holdsFlat {s : Schema} (h : Everywhere OffersFlat s) : s.value.HoldsFlat := by
  induction h with
  | @intro s flat _ ih =>
    refine .intro (fun union v hv => ?_) fun v hv => ?_
    all_goals
      rw [beneath_value] at hv
      obtain ⟨c, hc, rfl⟩ := List.mem_map.mp hv
    · rw [isOf_value, beq_iff_eq] at union
      obtain ⟨i, options, rfl⟩ := form_of_kind? union
      rw [isOf_value]
      exact beq_eq_false_iff_ne.mpr (flat c hc)
    · exact ih c hc

end Schema

namespace Stack

variable {s : Stack} {a b : Value} {n : Nat}

theorem looking_le_iff {target : Value} {values : List Value} :
    s.looking target values ≤ n ↔ ∀ v ∈ values, s.listed v target ≤ n := by
  induction values with
  | nil => simp [looking]
  | cons v rest ih => rw [looking, Nat.max_le, ih, List.forall_mem_cons]

/-- Room for a pair is room for its kinds and for each of the values that are looked for. -/
theorem calls_le_iff (differ : a.same b = false) :
    s.calls a b ≤ n ↔
      s.pair false a.kind? b.kind? ≤ n ∧ ∀ v ∈ a.listing, s.listed v b ≤ n := by
  rw [calls, differ, if_neg Bool.false_ne_true, Nat.max_le, looking_le_iff]

/-- One node is not looked into. -/
theorem calls_le_most_of_same (same : a.same b = true) : s.calls a b ≤ s.most := by
  rw [calls, if_pos same]
  exact s.pair_le _ _ _

theorem calls_le_most (lists : a.ListsLiterals) : s.calls a b ≤ s.most := by
  cases same : a.same b with
  | true => exact calls_le_most_of_same same
  | false =>
    exact (calls_le_iff same).mpr ⟨s.pair_le _ _ _, fun v hv => s.listed_le v b (lists v hv)⟩

end Stack

namespace Policy

variable {p : Policy} {n room : Nat} {depth : Int} {a b : Value}

theorem callsFor_le_iff :
    p.callsFor a b ≤ n ↔ p.stack.calls a b ≤ n ∧ (p.trace = true → p.stack.record ≤ n) := by
  unfold callsFor
  cases p.trace <;> simp

theorem callsFor_le_most (lists : a.ListsLiterals) : p.callsFor a b ≤ p.stack.most :=
  callsFor_le_iff.mpr ⟨Stack.calls_le_most lists, fun _ => p.stack.record_le⟩

theorem callsFor_le_most_of_same (same : a.same b = true) : p.callsFor a b ≤ p.stack.most :=
  callsFor_le_iff.mpr ⟨Stack.calls_le_most_of_same same, fun _ => p.stack.record_le⟩

/-- A node that lists nothing takes no more than that. -/
theorem space_of_nothing {s : Schema} (nothing : s.listed = []) (space : p.stack.most ≤ room) :
    p.callsFor s.value b ≤ room := by
  refine Nat.le_trans (callsFor_le_most fun v hv => ?_) space
  rw [Schema.listing_value, nothing] at hv
  cases hv

/-! ## One level of a comparison -/

theorem level_report {d : Decision} {r : Record} (h : r ∈ p.report depth a b d) :
    r.level = .debug := by
  unfold report at h
  split at h
  · rw [List.mem_singleton.mp h]
    rfl
  · cases h

theorem not_felt_report (d : Decision) :
    ¬ Run.Felt (Logged.note (p.report depth a b d) >>= fun _ => (pure d.verdict : Run Bool)) := by
  rintro (⟨r, hr, warning⟩ | broken)
  · rw [Logged.note, Logged.bind_ok, List.mem_append] at hr
    rcases hr with hr | hr
    · rw [level_report hr] at warning
      cases warning
    · cases hr
  · cases broken

/-- A comparison warns at this level only where it does so one level down. -/
theorem warns_check_succ (h : Run.Warns (p.check (n + 1) room depth a b)) :
    ∃ q : Question, Asked q.1 a b q.2 ∧
      Run.Warns (p.check n (room - q.1.held) (depth + 1) q.2.1 q.2.2) := by
  rw [check_succ] at h
  split at h
  · obtain ⟨r, hr, -⟩ := h
    cases hr
  · rcases Run.warns_bind.mp h with asked | ⟨d, -, reported⟩
    · exact (decision_inquires a b).exists_warns asked
    · exact absurd (.inl reported) (not_felt_report d)

/-- A fault at this level is that of reading, calls that run out here, or one of the next level. -/
theorem fault_check_succ {e : Fault}
    (other : Rule.BothClear a b ∨ ∀ sortName, e ≠ .notIterable sortName)
    (h : (p.check (n + 1) room depth a b).outcome = .error e) :
    room < p.callsFor a b ∧ e = .stackExhausted ∨ ∃ q : Question, Asked q.1 a b q.2 ∧
      (p.check n (room - q.1.held) (depth + 1) q.2.1 q.2.2).outcome = .error e := by
  rw [check_succ] at h
  split at h
  · rename_i short
    cases h
    exact .inl ⟨short, rfl⟩
  · rcases Run.error_bind.mp h with asked | ⟨d, -, reported⟩
    · exact .inr ((decision_inquires a b).exists_fault other asked)
    · cases reported

/-- A pair for which no level is left ends in a fault only if calls run out or the limit is no
number. -/
theorem fault_exceeded {e : Fault} (h : (p.exceeded room a b).outcome = .error e) :
    room < p.stack.record ∧ e = .stackExhausted ∨ ∃ s, p.limit.reach = .unordered s ∧
      e = .unorderedDepth s := by
  unfold exceeded at h
  split at h
  · rename_i s sort
    cases h
    exact .inr ⟨s, sort, rfl⟩
  · split at h
    · rename_i short
      cases h
      exact .inl ⟨short, rfl⟩
    · cases h

/-! ## Where a limit is not felt -/

/-- **No pair lies too deep** where both values together have fewer levels than are left. -/
theorem not_warns_check (enough : a.height + b.height < n) :
    ¬ Run.Warns (p.check n room depth a b) := by
  -- A warning would come from the last level, and the heights run out before it.
  induction n generalizing room depth a b with
  | zero => omega
  | succ n ih =>
    intro warns
    obtain ⟨q, asked, below⟩ := warns_check_succ warns
    have lower := asked.lower
    unfold Lower at lower
    exact ih (by omega) below

/-- **Calls do not run out** as long as there is room for a pair and for a record wherever a rule
moves to. -/
theorem not_exhausted_check (Roomy : Nat → Nat → Value → Value → Prop)
    (space : ∀ {n room a b}, Roomy n room a b → p.callsFor a b ≤ room ∧ p.stack.record ≤ room)
    (step : ∀ {n room a b} {q : Question}, Roomy (n + 1) room a b → Asked q.1 a b q.2 →
      Roomy n (room - q.1.held) q.2.1 q.2.2)
    (roomy : Roomy n room a b) : ¬ Run.Exhausted (p.check n room depth a b) := by
  intro exhausted
  induction n generalizing room depth a b with
  | zero =>
    rcases fault_exceeded exhausted with ⟨short, -⟩ | ⟨s, -, other⟩
    · exact Nat.not_lt.mpr (space roomy).2 short
    · cases other
  | succ n ih =>
    rcases fault_check_succ (.inr (by simp)) exhausted with ⟨short, -⟩ | ⟨q, asked, below⟩
    · exact Nat.not_lt.mpr (space roomy).1 short
    · exact ih (step roomy asked) below

/-- Room for whatever takes most is room for a pair and for a record. -/
theorem space_of_most (literals : a.HoldsLiterals) (space : p.stack.most ≤ room) :
    p.callsFor a b ≤ room ∧ p.stack.record ≤ room :=
  ⟨Nat.le_trans (callsFor_le_most literals.here) space, Nat.le_trans p.stack.record_le space⟩

/-- Five calls for each level that is left are enough. -/
theorem not_exhausted_of_levels (literals : a.HoldsLiterals)
    (space : 5 * n + p.stack.most ≤ room) : ¬ Run.Exhausted (p.check n room depth a b) := by
  refine not_exhausted_check
    (fun n room a _ => a.HoldsLiterals ∧ 5 * n + p.stack.most ≤ room)
    (fun roomy => space_of_most roomy.1 (by omega)) ?_ ⟨literals, space⟩
  rintro n room a b q ⟨literals, space⟩ asked
  have held := q.1.held_le
  exact ⟨asked.source Value.listsLiterals_portable literals, by omega⟩

/-- Five calls for each level of both values are enough. -/
theorem not_exhausted_of_height (literals : a.HoldsLiterals)
    (space : 5 * (a.height + b.height) + p.stack.most ≤ room) :
    ¬ Run.Exhausted (p.check n room depth a b) := by
  refine not_exhausted_check
    (fun _ room a b =>
      a.HoldsLiterals ∧ 5 * (a.height + b.height) + p.stack.most ≤ room)
    (fun roomy => space_of_most roomy.1 (by omega)) ?_ ⟨literals, space⟩
  rintro n room a b q ⟨literals, space⟩ asked
  have held := q.1.held_le
  have lower := asked.lower
  unfold Lower at lower
  exact ⟨asked.source Value.listsLiterals_portable literals, by omega⟩

/-- Where no option of a union is a union, four calls for each level of both values are enough, and
one more for a union. -/
theorem not_exhausted_of_weight (literals : a.HoldsLiterals) (flatA : a.HoldsFlat) (flatB : b.HoldsFlat)
    (space : a.weight + b.weight + p.stack.most ≤ room) :
    ¬ Run.Exhausted (p.check n room depth a b) := by
  refine not_exhausted_check
    (fun _ room a b => a.HoldsLiterals ∧ a.HoldsFlat ∧ b.HoldsFlat ∧
      a.weight + b.weight + p.stack.most ≤ room)
    (fun roomy => space_of_most roomy.1 (by omega)) ?_ ⟨literals, flatA, flatB, space⟩
  rintro n room a b q ⟨literals, flatA, flatB, space⟩ asked
  have spent := weight_of_moves flatA flatB asked.moves
  exact ⟨asked.source Value.listsLiterals_portable literals,
    asked.source Value.offersFlat_portable flatA, asked.target Value.offersFlat_portable flatB,
    by omega⟩

/-- Levels beyond those that both values have together change nothing. -/
theorem check_eq_of_height {m : Nat} (enough : a.height + b.height < n)
    (enough' : a.height + b.height < m) :
    p.check n room depth a b = p.check m room depth a b := by
  induction n generalizing m room depth a b with
  | zero => omega
  | succ n ih =>
    obtain ⟨m, rfl⟩ : ∃ k, m = k + 1 := ⟨m - 1, by omega⟩
    have below (q : Question) (asked : Asked q.1 a b q.2) :
        p.check n (room - q.1.held) (depth + 1) q.2.1 q.2.2 =
          p.check m (room - q.1.held) (depth + 1) q.2.1 q.2.2 := by
      have lower := asked.lower
      unfold Lower at lower
      exact ih (by omega) (by omega)
    rw [check_succ, check_succ, (decision_inquires a b).eq_of_agree below]

/-! ## Integers as limits -/

variable {stack : Stack} {deepest : Int} {trace : Bool}

/-- Besides that of reading, only one fault ends a comparison under a limit that is an integer. -/
theorem eq_exhausted_of_fault {e : Fault}
    (other : Rule.BothClear a b ∨ ∀ sortName, e ≠ .notIterable sortName)
    (h : ((upTo stack deepest trace).check n room depth a b).outcome = .error e) :
    e = .stackExhausted := by
  -- By induction on the levels; what a clear pair asks about is clear.
  induction n generalizing room depth a b with
  | zero =>
    rcases fault_exceeded h with ⟨-, rfl⟩ | ⟨s, sort, -⟩
    · rfl
    · cases sort
  | succ n ih =>
    rcases fault_check_succ other h with ⟨-, rfl⟩ | ⟨q, asked, below⟩
    · rfl
    · exact ih (other.imp_left asked.clear) below

/-- Where no level is left, the pair is reported if there is room to do so. -/
theorem exceeded_upTo : (upTo stack deepest trace).exceeded room a b =
    if room < stack.record then ⟨[], .error .stackExhausted⟩
    else ⟨[.depthExceeded (Limit.ofInt deepest).shown a.label b.label], .ok false⟩ :=
  rfl

/-- One of the limits is felt there. -/
theorem felt_exceeded : Run.Felt ((upTo stack deepest trace).exceeded room a b) := by
  rw [exceeded_upTo]
  split
  · exact .inr rfl
  · exact .inl ⟨_, List.mem_singleton_self _, rfl⟩

/-- **A comparison without a limit felt is the same with more levels**, under whatever limit. -/
theorem check_eq_of_not_felt {m : Nat} (d d' : Int) (le : m ≤ n)
    (free : ¬ Run.Felt ((upTo stack d trace).check m room depth a b)) :
    (upTo stack d' trace).check n room depth a b =
      (upTo stack d trace).check m room depth a b := by
  -- By induction on the levels of the run that is free; at its last level it would have felt one.
  induction m generalizing n room depth a b with
  | zero => exact absurd felt_exceeded free
  | succ m ih =>
    obtain ⟨n, rfl⟩ : ∃ k, n = k + 1 := ⟨n - 1, by omega⟩
    have calls : (upTo stack d' trace).callsFor a b = (upTo stack d trace).callsFor a b := rfl
    rw [check_succ, check_succ] at *
    rw [calls]
    split
    · rfl
    · rename_i space
      rw [if_neg space, Run.felt_bind, not_or] at free
      have one := (decision_inquires a b).eq_of_not_felt
        (fun q _ quiet => ih (by omega : m ≤ n) quiet) free.1
      rw [one]
      rfl

/-! ## Whole comparisons -/

theorem conforms_of_overflows (h : p.Overflows a b) :
    p.conforms a b = Logged.note (p.check (p.levelsFrom 0) p.stack.whole 0 a b).records >>=
      fun _ => p.givenUp a b := by
  rw [conforms, h]

theorem warns_of_overflows (h : p.Overflows a b) : Run.Warns (p.conforms a b) := by
  rw [conforms_of_overflows h, Run.warns_bind]
  exact .inr ⟨(), rfl, _, List.mem_singleton_self _, rfl⟩

/-- A comparison that does not warn has felt none of the limits. -/
theorem not_felt_of_not_warns (silent : ¬ Run.Warns (p.conforms a b)) :
    ¬ Run.Felt (p.check (p.levelsFrom 0) p.stack.whole 0 a b) := by
  have held : ¬ p.Overflows a b := fun overflow => silent (warns_of_overflows overflow)
  rw [conforms_of_not_overflows held] at silent
  exact not_or.mpr ⟨silent, held⟩

/-- **A silent comparison is exact.**  A comparison that does not warn comes out the same under
every higher limit, records and faults included. -/
theorem conforms_eq_of_silent (stack : Stack) (a b : Value) (trace : Bool) {d d' : Int} (le : d ≤ d')
    (silent : ¬ Run.Warns ((upTo stack d trace).conforms a b)) :
    (upTo stack d' trace).conforms a b = (upTo stack d trace).conforms a b := by
  have free := not_felt_of_not_warns silent
  have same : (upTo stack d' trace).check _ (upTo stack d' trace).stack.whole 0 a b =
      (upTo stack d trace).check _ stack.whole 0 a b :=
    check_eq_of_not_felt d d' (levelsFrom_mono le) free
  have held : ¬ (upTo stack d trace).Overflows a b := (not_or.mp free).2
  have held' : ¬ (upTo stack d' trace).Overflows a b := by
    rw [Overflows, same]
    exact held
  rw [conforms_of_not_overflows held, conforms_of_not_overflows held']
  exact same

/-- Two tuples whose second items end the comparison with a fault; an option that lies too deep is
not reached. -/
theorem fault_under_higher_limit :
    let text (n : Nat) : Value := .node (.made n) (.of .string) []
    let tuple (n : Nat) (items : List Value) : Value :=
      .node (.made n) (.of .tuple) [(.items, .list (.made (n + 1)) items)]
    let a : Value := tuple 0 [text 2, .node (.made 3) (.of .literal) [(.values, .int 5)]]
    let b : Value := tuple 4 [.node (.made 6) (.of .union) [(.options, .list (.made 7)
      [text 8, tuple 9 [tuple 11 [text 13]]])], text 14]
    ((upTo .standard 2 true).conforms a b).outcome = .error (.notIterable "int") ∧
      (upTo .standard 128 true).conforms a b = (upTo .standard 2 true).conforms a b := by
  intro text tuple a b
  have fault : ((upTo .standard 2 true).conforms a b).outcome = .error (.notIterable "int") := by
    rfl
  have levels : ((upTo .standard 2 true).conforms a b).records.map Record.level =
      [.debug, .debug] := by rfl
  refine ⟨fault, conforms_eq_of_silent .standard a b true (by decide) ?_⟩
  rintro ⟨r, hr, warning⟩
  have listed := List.mem_map_of_mem (f := Record.level) hr
  rw [levels, warning] at listed
  revert listed
  decide

/-- A comparison is not given up where there are five calls for every level that it can reach, and
beyond them as many as a pair or a record takes. -/
theorem not_overflows_of_room (literals : a.HoldsLiterals)
    (h : 5 * (a.height + b.height) + stack.most ≤ stack.whole ∨
      5 * (deepest + 1) + stack.most ≤ stack.whole) :
    ¬ (upTo stack deepest trace).Overflows a b := by
  unfold Overflows
  have ample := stack.ample
  rcases h with low | shallow
  · exact not_exhausted_of_height literals low
  · rw [levelsFrom_upTo]
    refine not_exhausted_of_levels literals ?_
    show 5 * (deepest + 1).toNat + stack.most ≤ stack.whole
    omega

/-- Where no option of a union is a union, four calls for every level are enough. -/
theorem not_overflows_of_flat (literals : a.HoldsLiterals) (flatA : a.HoldsFlat) (flatB : b.HoldsFlat)
    (h : 4 * (a.height + b.height + 1) + stack.most ≤ stack.whole) :
    ¬ (upTo stack deepest trace).Overflows a b := by
  refine not_exhausted_of_weight literals flatA flatB ?_
  have left := a.weight_le
  have right := b.weight_le
  show a.weight + b.weight + stack.most ≤ stack.whole
  omega

section Deep

variable (deep : (a.height + b.height : Int) ≤ deepest)
include deep

theorem not_warns_of_deep : ¬ Run.Warns ((upTo stack deepest trace).check
    ((upTo stack deepest trace).levelsFrom 0) stack.whole 0 a b) := by
  refine not_warns_check ?_
  rw [levelsFrom_upTo]
  omega

theorem warns_conforms_iff :
    Run.Warns ((upTo stack deepest trace).conforms a b) ↔
      (upTo stack deepest trace).Overflows a b := by
  refine ⟨fun warns => ?_, warns_of_overflows⟩
  by_contra held
  rw [conforms_of_not_overflows held] at warns
  exact not_warns_of_deep deep warns

/-- The one warning that a limit deep enough leaves is that calls ran out. -/
theorem eq_stackExceeded_of_warning {r : Record}
    (hr : r ∈ ((upTo stack deepest trace).conforms a b).records) (warning : r.level = .warning) :
    r = .stackExceeded (Limit.ofInt deepest).shown a.label b.label := by
  have overflow := (warns_conforms_iff deep).mp ⟨r, hr, warning⟩
  rw [conforms_of_overflows overflow, Logged.note, Logged.bind_ok, List.mem_append] at hr
  rcases hr with earlier | last
  · exact absurd ⟨r, earlier, warning⟩ (not_warns_of_deep deep)
  · exact List.mem_singleton.mp last

end Deep

/-- **Height bounds the recursion.**  Whatever two values are compared, every rule asks about lower
pairs only.  So as many levels as both values have together are all that matter, and where the limit
allows them no pair is reported as too deep: the one warning left is that calls ran out. -/
theorem recursion_bounded (stack : Stack) (a b : Value) :
    (∀ r, Inquiry (Rule.BothClear a b) (Lower a b)
      fun sub => Rule.decide (Function.curry sub) a b r) ∧
      (∀ (p : Policy) (levels room : Nat) (depth : Int), a.height + b.height < levels →
        p.check levels room depth a b = p.check (a.height + b.height + 1) room depth a b) ∧
      ∀ (deepest : Int) (trace : Bool), (a.height + b.height : Int) ≤ deepest →
        (Run.Warns ((upTo stack deepest trace).conforms a b) ↔
          (upTo stack deepest trace).Overflows a b) ∧
        (∀ r ∈ ((upTo stack deepest trace).conforms a b).records, r.level = .warning →
          r = .stackExceeded (Limit.ofInt deepest).shown a.label b.label) ∧
        (a.HoldsLiterals → 5 * (a.height + b.height) + stack.most ≤ stack.whole →
          ¬ (upTo stack deepest trace).Overflows a b) := by
  refine ⟨fun r => (Rule.decide_inquires r a b).mono fun _ asked => asked.lower, ?_, ?_⟩
  · intro p levels room depth enough
    exact check_eq_of_height enough (Nat.lt_succ_self _)
  · intro deepest trace deep
    refine ⟨warns_conforms_iff deep, ?_, fun literals low => not_overflows_of_room literals (.inl low)⟩
    intro r hr warning
    exact eq_stackExceeded_of_warning deep hr warning

/-- An intersection whose fields are no descriptors, against what merely looks like a union. -/
theorem malformed_pair_without_warning :
    let object (n : Nat) (name : String) (v : Value) : Value :=
      .node (.made n) (.of .object) [(.shape, .dict (.made (n + 1)) [(.text name, v)])]
    let a : Value := .node (.made 0) (.of .intersection)
      [(.left, object 1 "k" (.int 3)), (.right, object 3 "m" .null)]
    let b : Value := .lookalike (.made 5)
      [("kind", .kind .union), ("options", .list (.made 6) [.text "x", object 7 "k" (.int 4)])]
    (a.height + b.height : Int) ≤ 4 ∧ ¬ Run.Warns ((upTo .standard 4 true).conforms a b) := by
  intro object a b
  have deep : (a.height + b.height : Int) ≤ 4 := by decide
  obtain ⟨warns_iff, -, held⟩ := (recursion_bounded .standard a b).2.2 4 true deep
  have field (n : Nat) (name : String) {v : Value} (flat : v.beneath = [])
      (lists : v.ListsLiterals) : (object n name v).HoldsLiterals := by
    refine .intro (fun x hx => by cases hx) fun w hw => ?_
    obtain rfl : w = v := List.mem_singleton.mp hw
    exact .of_flat lists flat
  have literals : a.HoldsLiterals := by
    refine .intro (fun x hx => by cases hx) fun w hw => ?_
    rcases List.mem_pair.mp hw with rfl | rfl
    · exact field 1 "k" rfl fun x hx => by cases hx
    · exact field 3 "m" rfl fun x hx => by cases hx
  exact ⟨deep, fun warns => held literals (by decide) (warns_iff.mp warns)⟩

/-- Two towers of tuples take more calls than can be held, and no depth limit keeps their comparison
from a warning. -/
theorem towers_without_room :
    let a : Value := (Schema.tuples 2 0 2000).value
    let b : Value := (Schema.tuples 2 1 2000).value
    (a.height + b.height : Int) ≤ 100000 ∧
      Run.Warns ((upTo .standard 100000 false).conforms a b) := by
  intro a b
  have overflow : (upTo .standard 100000 false).Overflows a b :=
    overflows_of_descends (Schema.tuples_descend 2000) (by decide) (by decide)
  refine ⟨?_, warns_of_overflows overflow⟩
  rw [Schema.height_value, Schema.height_value, Schema.tuples_height, Schema.tuples_height]
  decide

end Policy

/-! ## Positive answers -/

namespace Policy

open Schema

variable {stack : Stack} {a b : Schema} {deepest : Int} {trace : Bool}

theorem not_overflows_of_bound (wf : a.WellFormed)
    (h : 5 * (a.height + b.height) + stack.most ≤ stack.whole ∨
      5 * (deepest + 1) + stack.most ≤ stack.whole) :
    ¬ (upTo stack deepest trace).Overflows a.value b.value := by
  refine not_overflows_of_room wf.holdsLiterals ?_
  rwa [height_value, height_value]

/-- Where no option of a union is a union, fewer calls are enough. -/
theorem not_overflows_of_flat_bound (wf : a.WellFormed) (flatA : Everywhere OffersFlat a)
    (flatB : Everywhere OffersFlat b)
    (h : 4 * (a.height + b.height + 1) + stack.most ≤ stack.whole) :
    ¬ (upTo stack deepest trace).Overflows a.value b.value := by
  refine not_overflows_of_flat wf.holdsLiterals (holdsFlat flatA) (holdsFlat flatB) ?_
  rwa [height_value, height_value]

/-- **Raising the depth limit never loses an answer**, unless the comparison under the higher limit
is given up for lack of room, which does not happen to built trees that are not too high or under a
limit that is not too high. -/
theorem conforms_of_le (stack : Stack) (a b : Schema) (trace : Bool) {d d' : Int} (le : d ≤ d')
    (h : ((upTo stack d trace).conforms a.value b.value).outcome = .ok true) :
    (((upTo stack d' trace).conforms a.value b.value).outcome = .ok true ↔
        ¬ (upTo stack d' trace).Overflows a.value b.value) ∧
      (a.WellFormed →
        5 * (a.height + b.height) + stack.most ≤ stack.whole ∨
            5 * (d' + 1) + stack.most ≤ stack.whole →
          ¬ (upTo stack d' trace).Overflows a.value b.value) := by
  have accepted : Assignable ((upTo stack d' trace).levelsFrom 0) a b :=
    (assignable_of_conforms h).mono (levelsFrom_mono le)
  exact ⟨conforms_iff_not_overflows accepted, not_overflows_of_bound⟩

/-- Under the lower limit the first option lies too deep, and the second takes the tuple. -/
theorem option_conforms_under_higher_limit :
    let text (n : Nat) : Schema := .plain (.made n) .string
    let a : Schema := .tuple (.made 0) [.tuple (.made 1) [text 2]]
    let b : Schema := .union (.made 3) [.tuple (.made 4) [.tuple (.made 5) [text 6]],
      .plain (.made 7) .unknown]
    ((upTo .standard 1 false).conforms a.value b.value).outcome = .ok true ∧
      ((upTo .standard 100000 false).conforms a.value b.value).outcome = .ok true := by
  intro text a b
  have shallow : ((upTo .standard 1 false).conforms a.value b.value).outcome = .ok true := by rfl
  have wf : a.WellFormed := by simp [a, text, WellFormed, IsSound, PartsSound, Schema.id]
  have deeper := conforms_of_le .standard a b false (by decide : (1 : Int) ≤ 100000) shallow
  exact ⟨shallow, deeper.1.mpr (deeper.2 wf (.inl (by decide)))⟩

end Policy

end Conformance
