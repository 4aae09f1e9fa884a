/-
# Conformance.Proofs.Listed — the values that literals and enumerations list.

A listed value is a truth value, one of the two absent values, a number or a text.  Its `Essence` is
what makes it the value that it is: of a number its exact amount and, if the caller asks, the sign
of a zero; of a text its characters and the class that it is an instance of.  Two listed values are
one value exactly when their essences are equal (`sameValue_iff`), so that the comparison of listed
values is an equivalence, and what the rules ask about a single value depends on its essence alone.

The class of an instance is told by its identity, so one half of the statement needs a heap.
-/
import Conformance.Proofs.Inspect

namespace Conformance

/-- What tells the class of a text: none but the given one, or the class that it is an instance of.
-/
inductive Mark where
  | plain
  | base (b : BaseClass)
  | made (id : Ident)
  deriving DecidableEq

/-- **`Essence`** — what makes a listed value the value that it is. -/
inductive Essence where
  | truth (b : Bool)
  | number (n : Numeric) (minus : Bool)
  | text (mark : Mark) (s : String)
  | null
  | undefined
  | nothing
  deriving DecidableEq

/-! ## Classes -/

namespace ClassRef

/-- What tells a class from others. -/
def mark : ClassRef → Mark
  | .base b => .base b
  | .made id _ _ => .made id

theorem mark_eq_of_same {c d : ClassRef} (h : c.same d = true) : c.mark = d.mark := by
  cases c with
  | base b =>
    cases d with
    | base b' => rw [eq_of_beq h]
    | made => cases h
  | made i _ _ =>
    cases d with
    | base => cases h
    | made j _ _ =>
      obtain ⟨n, rfl, rfl⟩ := Ident.same_iff.mp h
      rfl

theorem same_of_mark_eq {c d : ClassRef} (made : c.same c = true) (h : c.mark = d.mark) :
    c.same d = true := by
  cases c with
  | base b =>
    cases d with
    | base b' => cases h; exact made
    | made => cases h
  | made i _ _ =>
    cases d with
    | base => cases h
    | made j _ _ => cases h; exact made

end ClassRef

/-- In a heap, a class that is the same as another is that class. -/
theorem Heap.class_eq_of_same {heap : Heap} {i j : Ident} {c d : ClassRef}
    (hc : heap.KeepsClass (.object i c)) (hd : heap.KeepsClass (.object j d))
    (h : c.same d = true) : c = d := by
  cases c with
  | base b =>
    cases d with
    | base b' => rw [eq_of_beq h]
    | made => cases h
  | made k _ _ =>
    cases d with
    | base => cases h
    | made l _ _ =>
      obtain ⟨n, rfl, rfl⟩ := Ident.same_iff.mp h
      exact hc.symm.trans hd

/-! ## Sorts of listed values -/

/-- The finite doubles are those with a finite amount. -/
theorem Numeric.exists_finite_iff {x : Binary64} :
    (∃ units, ofBinary64 x = .finite units) ↔ x.isFinite = true := by
  unfold ofBinary64
  cases nan : x.isNaN with
  | true =>
    have infinite : x.isFinite = false := by
      simp_all [Binary64.isNaN, Binary64.isFinite]
    simp [infinite]
  | false => cases finite : x.isFinite <;> simp

namespace Value

/-- What tells the class of a value that is a text. -/
def mark : Value → Mark
  | .object _ c => c.mark
  | _ => .plain

/-- **`essence`** — the essence of a listed value.  The sign of a zero is part of it if asked for.
-/
def essence (signed : Bool) (v : Value) : Essence :=
  match v with
  | .bool b => .truth b
  | .null => .null
  | .undefined => .undefined
  | v =>
    match v.numeric?, v.text? with
    | some n, _ => .number n (signed && n == .finite 0 && v.hasMinus)
    | none, some s => .text v.mark s
    | none, none => .nothing

/-- The value is the number `n`, and no truth value. -/
def Amounts (v : Value) (n : Numeric) : Prop :=
  (∀ b, v ≠ .bool b) ∧ v.numeric? = some n

/-- **`OfSort`** — the five sorts of listed values, in the order of their essences. -/
inductive OfSort : Nat → Value → Prop where
  | truth (b : Bool) : OfSort 0 (.bool b)
  | number {v : Value} {n : Numeric} : v.Amounts n → OfSort 1 v
  | text {v : Value} {s : String} : v.text? = some s → OfSort 2 v
  | null : OfSort 3 .null
  | undefined : OfSort 4 .undefined

theorem MayList.ofSort {v : Value} (h : v.MayList) : ∃ k, v.OfSort k := by
  have literal := h.1
  cases v with
  | null => exact ⟨3, .null⟩
  | undefined => exact ⟨4, .undefined⟩
  | bool b => exact ⟨0, .truth b⟩
  | int n => exact ⟨1, .number ⟨by simp, rfl⟩⟩
  | float id x => exact ⟨1, .number ⟨by simp, rfl⟩⟩
  | text s => exact ⟨2, .text rfl⟩
  | object id c =>
    -- An instance is the zero of the class whose data it holds.
    simp only [isLiteral, datum] at literal
    cases layout : c.layout with
    | int => exact ⟨1, .number ⟨by simp, by rw [numeric?, datum, layout]; rfl⟩⟩
    | bool => exact ⟨1, .number ⟨by simp, by rw [numeric?, datum, layout]; rfl⟩⟩
    | float => exact ⟨1, .number ⟨by simp, by rw [numeric?, datum, layout]; rfl⟩⟩
    | str => exact ⟨2, .text (by rw [text?, datum, layout]; rfl)⟩
    | object => rw [layout] at literal; cases literal
  | _ => cases literal

variable {signed : Bool} {v w : Value}

theorem essence_of_amounts {n : Numeric} (h : v.Amounts n) :
    v.essence signed = .number n (signed && n == .finite 0 && v.hasMinus) := by
  obtain ⟨noTruth, amount⟩ := h
  unfold essence
  split
  · exact absurd rfl (noTruth _)
  · cases amount
  · cases amount
  · rw [amount]

theorem numeric?_of_text? {s : String} (h : v.text? = some s) : v.numeric? = none := by
  unfold text? at h
  unfold numeric?
  split at h <;> simp_all

theorem essence_of_text? {s : String} (h : v.text? = some s) :
    v.essence signed = .text v.mark s := by
  unfold essence
  split
  · cases h
  · cases h
  · cases h
  · rw [numeric?_of_text? h, h]

theorem OfSort.ctorIdx_essence {k : Nat} (h : v.OfSort k) : (v.essence signed).ctorIdx = k := by
  cases h with
  | truth | null | undefined => rfl
  | number h => rw [essence_of_amounts h]; rfl
  | text h => rw [essence_of_text? h]; rfl

/-! ## One value -/

theorem MayList.eq_eq_eqPlain (h : v.MayList) (w : Value) : v.eq w = v.eqPlain w := by
  have literal := h.1
  cases v with
  | list | tuple | dict | frozen | node => cases literal
  | _ => rfl

/-- **`ListedIn heap v`** — a value that a node of the heap may list. -/
def ListedIn (heap : Heap) (v : Value) : Prop := v.MayList ∧ heap.KeepsClass v

/-- One object has one sort, if the instances of a class are told from those of others. -/
theorem sort_eq_of_same {heap : Heap} (hv : v.ListedIn heap) (hw : w.ListedIn heap)
    (one : v.oneSort w = true) (same : v.same w = true) :
    (v.essence signed).ctorIdx = (w.essence signed).ctorIdx := by
  have literal := hw.1.1
  cases v with
  | object i c =>
    cases w with
    | object j d =>
      obtain rfl := heap.class_eq_of_same hv.2 hw.2 one
      -- What an instance amounts to is fixed by its class.
      cases layout : c.layout <;>
        simp [essence, numeric?, text?, datum, layout, zeroOf, Essence.ctorIdx]
    | _ => cases one
  | null | undefined | bool | int | text | float =>
    cases w with
    | null | undefined | bool | int | text | float => first | rfl | cases same
    | object => cases one
    | _ => cases literal
  | _ => cases hv.1.1

/-- Two values that are one value are of one sort. -/
theorem sort_eq_of_sameValue {heap : Heap} (hv : v.ListedIn heap) (hw : w.ListedIn heap)
    (h : v.sameValue signed w = true) :
    (v.essence signed).ctorIdx = (w.essence signed).ctorIdx := by
  unfold sameValue at h
  split at h
  · rfl
  · cases h
  · cases h
  rename_i noTruth noTruth' _
  -- Two numbers are compared as numbers, and everything else by sort and then as data.
  split at h
  · rename_i p q hp hq
    have amountV : v.Amounts p := ⟨noTruth, hp⟩
    have amountW : w.Amounts q := ⟨noTruth', hq⟩
    rw [essence_of_amounts amountV, essence_of_amounts amountW]
    rfl
  rename_i notBoth
  obtain ⟨one, equal⟩ := Bool.and_eq_true_iff.mp h
  rw [hv.1.eq_eq_eqPlain] at equal
  unfold eqPlain at equal
  split at equal
  · rename_i p q hp hq
    exact (notBoth p q hp hq).elim
  split at equal
  · rename_i s t hs ht
    rw [essence_of_text? hs, essence_of_text? ht]
    rfl
  · exact sort_eq_of_same hv hw one equal

theorem sameValue_of_amounts {p q : Numeric} (hv : v.Amounts p) (hw : w.Amounts q) :
    v.sameValue signed w = sameNumber signed v w p q := by
  unfold sameValue
  split
  · exact absurd rfl (hv.1 _)
  · exact absurd rfl (hv.1 _)
  · exact absurd rfl (hw.1 _)
  · rw [hv.2, hw.2]

theorem sameNumber_iff {p q : Numeric} :
    sameNumber signed v w p q = true ↔
      Essence.number p (signed && p == .finite 0 && v.hasMinus) =
        .number q (signed && q == .finite 0 && w.hasMinus) := by
  rw [sameNumber, Essence.number.injEq, Bool.and_eq_true, beq_iff_eq]
  refine and_congr_right fun hpq => ?_
  subst hpq
  cases signed with
  | false => simp
  | true =>
    by_cases zero : p = .finite 0
    · simp [zero]
    · simp [zero, beq_eq_false_iff_ne.mpr zero]

theorem sameValue_of_text? {s t : String} (mayList : v.MayList) (hv : v.text? = some s)
    (hw : w.text? = some t) : v.sameValue signed w = (v.oneSort w && s == t) := by
  have plain : v.eqPlain w = (s == t) := by rw [eqPlain, numeric?_of_text? hv, hv, hw]
  unfold sameValue
  split
  · cases hv
  · cases hv
  · cases hw
  · rw [numeric?_of_text? hv, mayList.eq_eq_eqPlain, plain]

/-- Texts are of one sort exactly when they are instances of one class. -/
theorem oneSort_iff_mark_eq {s t : String} (hv : v.text? = some s) (hw : w.text? = some t)
    (hasClass : v.HasClass) : v.oneSort w = true ↔ v.mark = w.mark := by
  cases v with
  | text =>
    cases w with
    | text => simp [oneSort, mark]
    | object j d => cases d <;> simp [oneSort, mark, ClassRef.mark]
    | _ => cases hw
  | object i c =>
    cases w with
    | text => cases c <;> simp [oneSort, mark, ClassRef.mark]
    | object j d => exact ⟨ClassRef.mark_eq_of_same, ClassRef.same_of_mark_eq hasClass.1⟩
    | _ => cases hw
  | _ => cases hv

/-- Values of one sort are one value exactly when they have one essence. -/
theorem sameValue_iff_of_sort_eq (hv : v.MayList) (hw : w.MayList)
    (sort : (v.essence signed).ctorIdx = (w.essence signed).ctorIdx) :
    v.sameValue signed w = true ↔ v.essence signed = w.essence signed := by
  obtain ⟨k, sortV⟩ := hv.ofSort
  obtain ⟨l, sortW⟩ := hw.ofSort
  rw [sortV.ctorIdx_essence, sortW.ctorIdx_essence] at sort
  subst sort
  cases sortV with
  | truth b =>
    cases sortW with
    | truth c => simp [sameValue, essence]
  | number hp =>
    cases sortW with
    | number hq =>
      rw [sameValue_of_amounts hp hq, sameNumber_iff, essence_of_amounts hp, essence_of_amounts hq]
  | text hs =>
    cases sortW with
    | text ht =>
      rw [sameValue_of_text? hv hs ht, essence_of_text? hs, essence_of_text? ht, Essence.text.injEq,
        Bool.and_eq_true, beq_iff_eq, oneSort_iff_mark_eq hs ht hv.2]
  | null =>
    cases sortW with
    | null => simp [sameValue, numeric?, datum, oneSort, eq, eqPlain, text?, same, ident?, sameData]
  | undefined =>
    cases sortW with
    | undefined =>
      simp [sameValue, numeric?, datum, oneSort, eq, eqPlain, text?, same, ident?, sameData]

/-- One essence makes one value. -/
theorem sameValue_of_essence_eq (hv : v.MayList) (hw : w.MayList)
    (h : v.essence signed = w.essence signed) : v.sameValue signed w = true :=
  (sameValue_iff_of_sort_eq hv hw (congrArg Essence.ctorIdx h)).mpr h

/-- **Two listed values are one value exactly when they have one essence.** -/
theorem sameValue_iff {heap : Heap} (hv : v.ListedIn heap) (hw : w.ListedIn heap) :
    v.sameValue signed w = true ↔ v.essence signed = w.essence signed := by
  constructor
  · intro h
    exact (sameValue_iff_of_sort_eq hv.1 hw.1 (sort_eq_of_sameValue hv hw h)).mp h
  · exact sameValue_of_essence_eq hv.1 hw.1

/-! ## What the rules ask about one value -/

theorem isText_iff (signed : Bool) (h : v.MayList) :
    v.isText = true ↔ ∃ mark s, v.essence signed = .text mark s := by
  obtain ⟨k, sort⟩ := h.ofSort
  cases sort with
  | truth | null | undefined => simp [isText, text?, datum, essence]
  | number h =>
    have noText : v.text? = none := by
      cases text : v.text? with
      | none => rfl
      | some s => cases h.2.symm.trans (numeric?_of_text? text)
    simp [isText, noText, essence_of_amounts h]
  | text h => simp [isText, h, essence_of_text? h]

theorem isBool_iff (signed : Bool) (h : v.MayList) :
    v.isBool = true ↔ ∃ b, v.essence signed = .truth b := by
  obtain ⟨k, sort⟩ := h.ofSort
  cases sort with
  | truth | null | undefined => simp [isBool, essence]
  | number h =>
    rw [essence_of_amounts h]
    cases v with
    | bool b => exact absurd rfl (h.1 b)
    | _ => simp [isBool]
  | text h =>
    rw [essence_of_text? h]
    cases v with
    | bool b => cases h
    | _ => simp [isBool]

/-- A number is an integer or a double, which its class cannot hide. -/
theorem datum_of_amounts {n : Numeric} (hasClass : v.HasClass) (h : v.Amounts n) :
    (∃ k, v.datum = .int k ∧ n = .ofInt k) ∨ ∃ id x, v.datum = .float id x ∧ n = .ofBinary64 x := by
  obtain ⟨noTruth, amount⟩ := h
  unfold numeric? at amount
  split at amount
  · rename_i b datum
    cases v with
    | bool b => exact absurd rfl (noTruth b)
    | object id c =>
      rw [Value.datum] at datum
      cases layout : c.layout with
      | bool => exact absurd layout hasClass.2
      | _ => rw [layout] at datum; cases datum
    | _ => cases datum
  · rename_i k datum
    exact .inl ⟨k, datum, (Option.some.inj amount).symm⟩
  · rename_i id x datum
    exact .inr ⟨id, x, datum, (Option.some.inj amount).symm⟩
  · cases amount

theorem datum_of_text? {s : String} (h : v.text? = some s) : v.datum = .text s := by
  unfold text? at h
  split at h
  · rename_i s' datum
    rw [datum, Option.some.inj h]
  · cases h

theorem isNumber_iff (signed : Bool) (h : v.MayList) :
    v.isNumber = true ↔ ∃ n minus, v.essence signed = .number n minus := by
  obtain ⟨k, sort⟩ := h.ofSort
  cases sort with
  | truth | null | undefined => simp [isNumber, datum, essence]
  | number amounts =>
    rcases datum_of_amounts h.2 amounts with ⟨k, datum, -⟩ | ⟨id, x, datum, -⟩
    · simp [isNumber, datum, essence_of_amounts amounts]
    · simp [isNumber, datum, essence_of_amounts amounts]
  | text text => simp [isNumber, datum_of_text? text, essence_of_text? text]

theorem isFiniteNumber_iff (signed : Bool) (h : v.MayList) :
    v.isFiniteNumber = true ↔ ∃ units minus, v.essence signed = .number (.finite units) minus := by
  obtain ⟨k, sort⟩ := h.ofSort
  cases sort with
  | truth | null | undefined => simp [isFiniteNumber, datum, essence]
  | number amounts =>
    rw [essence_of_amounts amounts]
    rcases datum_of_amounts h.2 amounts with ⟨k, datum, rfl⟩ | ⟨id, x, datum, rfl⟩
    · simp [isFiniteNumber, datum, Numeric.ofInt]
    · simp [isFiniteNumber, datum, Numeric.exists_finite_iff]
  | text text => simp [isFiniteNumber, datum_of_text? text, essence_of_text? text]

theorem exists_ofInt_of_isInteger (signed : Bool) (h : v.MayList) (int : v.isInteger = true) :
    ∃ k minus, v.essence signed = .number (.ofInt k) minus := by
  obtain ⟨l, sort⟩ := h.ofSort
  cases sort with
  | truth | null | undefined => cases int
  | number amounts =>
    rw [essence_of_amounts amounts]
    rcases datum_of_amounts h.2 amounts with ⟨k, datum, rfl⟩ | ⟨id, x, datum, rfl⟩
    · exact ⟨k, _, rfl⟩
    · rw [isInteger, datum] at int
      cases int
  | text text =>
    rw [isInteger, datum_of_text? text] at int
    cases int

end Value

namespace Schema

/-- What the node lists may be listed by a node of the heap. -/
def ListsIn (heap : Heap) (s : Schema) : Prop := ∀ v ∈ s.listed, v.ListedIn heap

theorem PartsSound.mayList {s : Schema} (h : s.PartsSound) : ∀ v ∈ s.listed, v.MayList := by
  intro v hv
  cases s with
  | literal id values => exact h.2 v hv
  | enum id values => exact (h.2 v hv).mayList
  | _ => cases hv

theorem PartsSound.listsIn {heap : Heap} {s : Schema} (h : s.PartsSound) (keeps : heap.Keeps s) :
    s.ListsIn heap :=
  fun v hv => ⟨h.mayList v hv, keeps.2 v hv⟩

end Schema

end Conformance
