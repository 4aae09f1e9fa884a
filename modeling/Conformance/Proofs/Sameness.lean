/-
# Conformance.Proofs.Sameness — one value, as an equivalence.

The comparison of literal values mixes integers of any size with doubles, tells the two zeros apart
or not, and takes a number that is not a number for itself.  All of that is in the essence of a
value, so being one value is having one essence (`sameValue_iff`), and that is an equivalence
whether or not the sign of a zero counts.

The two ways of counting differ on zeros of opposite sign and on nothing else
(`sameValue_signed_iff`).  A zero is read off what is stored, an integer or a word of 64 bits, and
shown to be a number that amounts to zero (`isZero_iff`).  An option of a union asks about a value
only what its essence tells (`takes_congr`), so of two values that are one it takes both or neither.
-/
import Conformance.Proofs.Listed

namespace Conformance

/-! ## Zeros -/

namespace Binary64

variable {x : Binary64}

/-- Of a finite double only the significand can make the magnitude vanish, since the spacing is a
power of two. -/
theorem magnitude_eq_zero_iff : x.magnitude = 0 ↔ x.isZero = true := by
  have spacing : x.spacing ≠ 0 := Nat.pos_iff_ne_zero.mp (Nat.pow_pos (by decide))
  have implicit : Nat.pow 2 52 ≠ 0 := by decide
  rw [magnitude, Nat.mul_eq_zero, or_iff_left spacing, isZero, Bool.and_eq_true, beq_iff_eq,
    beq_iff_eq]
  split
  · rename_i subnormal
    simp [subnormal]
  · rename_i normal
    constructor
    · intro none
      omega
    · rintro ⟨subnormal, -⟩
      exact absurd subnormal normal

theorem scaled_eq_zero_iff : x.scaled = 0 ↔ x.isZero = true := by
  rw [← magnitude_eq_zero_iff, scaled]
  split <;> omega

end Binary64

namespace Numeric

theorem ofInt_eq_zero_iff {n : Int} : ofInt n = .finite 0 ↔ n = 0 := by
  have zero : ofInt 0 = .finite 0 := by rw [ofInt, Int.zero_mul]
  constructor
  · intro h
    exact ofInt_injective (h.trans zero.symm)
  · rintro rfl
    exact zero

/-- The doubles of amount zero are the two words with neither exponent nor fraction. -/
theorem ofBinary64_eq_zero_iff {x : Binary64} : ofBinary64 x = .finite 0 ↔ x.isZero = true := by
  constructor
  · intro h
    obtain ⟨notNaN, finite⟩ : x.isNaN = false ∧ x.isFinite = true := by
      unfold ofBinary64 at h
      cases nan : x.isNaN <;> cases finite : x.isFinite <;> simp_all
    rw [ofBinary64, notNaN, finite] at h
    exact Binary64.scaled_eq_zero_iff.mp (Numeric.finite.inj h)
  · intro zero
    have biased : x.biased = 0 := by
      simp only [Binary64.isZero, Bool.and_eq_true, beq_iff_eq] at zero
      exact zero.1
    have notNaN : x.isNaN = false := by simp [Binary64.isNaN, biased]
    have finite : x.isFinite = true := by simp [Binary64.isFinite, biased]
    rw [ofBinary64, notNaN, finite, Binary64.scaled_eq_zero_iff.mpr zero]
    rfl

end Numeric

namespace Value

variable {minus : Bool} {v w : Value}

/-- **`isZero minus v`** — a zero that has a minus sign or has none, as it is stored.  An integer has
none. -/
def isZero (minus : Bool) (v : Value) : Bool :=
  match v.datum with
  | .int n => n == 0 && !minus
  | .float _ x => x.isZero && x.negative == minus
  | _ => false

theorem isZero_iff (hasClass : v.HasClass) :
    v.isZero minus = true ↔ v.Amounts (.finite 0) ∧ v.hasMinus = minus := by
  constructor
  · intro zero
    have noTruth : ∀ b, v ≠ .bool b := by
      rintro b rfl
      cases zero
    unfold isZero at zero
    split at zero
    · rename_i n datum
      rw [Bool.and_eq_true, beq_iff_eq, Bool.not_eq_true'] at zero
      obtain ⟨rfl, rfl⟩ := zero
      have amount : v.numeric? = some (.ofInt 0) := by simp only [numeric?, datum]
      rw [Numeric.ofInt_eq_zero_iff.mpr rfl] at amount
      exact ⟨⟨noTruth, amount⟩, by simp [hasMinus, datum]⟩
    · rename_i id x datum
      rw [Bool.and_eq_true, beq_iff_eq] at zero
      have amount : v.numeric? = some (.ofBinary64 x) := by simp only [numeric?, datum]
      rw [Numeric.ofBinary64_eq_zero_iff.mpr zero.1] at amount
      exact ⟨⟨noTruth, amount⟩, by simp [hasMinus, datum, zero.2]⟩
    · cases zero
  · rintro ⟨amounts, rfl⟩
    rcases datum_of_amounts hasClass amounts with ⟨n, datum, amount⟩ | ⟨id, x, datum, amount⟩
    · have zero := Numeric.ofInt_eq_zero_iff.mp amount.symm
      simp [isZero, hasMinus, datum, zero]
    · have zero := Numeric.ofBinary64_eq_zero_iff.mp amount.symm
      simp [isZero, hasMinus, datum, zero]

/-! ## With and without the sign of a zero -/

/-- **`Opposite v w`** — two zeros, one of which has a minus sign. -/
def Opposite (v w : Value) : Prop :=
  v.Amounts (.finite 0) ∧ w.Amounts (.finite 0) ∧ v.hasMinus ≠ w.hasMinus

theorem opposite_iff (hv : v.HasClass) (hw : w.HasClass) :
    v.Opposite w ↔ ∃ minus, v.isZero minus = true ∧ w.isZero (!minus) = true := by
  constructor
  · rintro ⟨zeroV, zeroW, differ⟩
    refine ⟨v.hasMinus, (isZero_iff hv).mpr ⟨zeroV, rfl⟩, (isZero_iff hw).mpr ⟨zeroW, ?_⟩⟩
    exact Bool.eq_not.mpr differ.symm
  · rintro ⟨minus, zeroV, zeroW⟩
    obtain ⟨amountV, rfl⟩ := (isZero_iff hv).mp zeroV
    obtain ⟨amountW, other⟩ := (isZero_iff hw).mp zeroW
    exact ⟨amountV, amountW, (Bool.eq_not.mp other).symm⟩

theorem Opposite.sameValue_false (h : v.Opposite w) : v.sameValue false w = true := by
  rw [sameValue_of_amounts h.1 h.2.1]
  simp [sameNumber]

/-- The signs of two numbers do not count unless both are zero. -/
theorem sameNumber_signed {p q : Numeric}
    (sign : p = .finite 0 → q = .finite 0 → v.hasMinus = w.hasMinus) :
    sameNumber true v w p q = sameNumber false v w p q := by
  by_cases one : p = q
  · subst one
    by_cases zero : p = .finite 0
    · simp [sameNumber, sign zero zero]
    · simp [sameNumber, zero]
  · simp [sameNumber, one]

/-- **Signs of zeros count for zeros of opposite sign only.** -/
theorem sameValue_signed_iff :
    v.sameValue true w = true ↔ v.sameValue false w = true ∧ ¬ v.Opposite w := by
  by_cases opposite : v.Opposite w
  · have differ : v.sameValue true w = false := by
      rw [sameValue_of_amounts opposite.1 opposite.2.1]
      simp [sameNumber, opposite.2.2]
    simp [opposite, differ]
  · suffices alike : v.sameValue true w = v.sameValue false w by simp [opposite, alike]
    unfold sameValue
    -- Only where both values are numbers, and no truth values, is the sign looked at.
    split
    · rfl
    · rfl
    · rfl
    · rename_i noTruth noTruth' _
      split
      · rename_i p q hp hq
        refine sameNumber_signed ?_
        rintro rfl rfl
        by_contra differ
        exact opposite ⟨⟨noTruth, hp⟩, ⟨noTruth', hq⟩, differ⟩
      · rfl

theorem sameValue_ne_iff : v.sameValue true w ≠ v.sameValue false w ↔ v.Opposite w := by
  constructor
  · intro differ
    by_contra notOpposite
    refine differ (Bool.eq_iff_iff.mpr ?_)
    rw [sameValue_signed_iff, and_iff_left notOpposite]
  · intro opposite alike
    rw [opposite.sameValue_false] at alike
    exact (sameValue_signed_iff.mp alike).2 opposite

end Value

/-! ## Options of unions -/

/-- An option of a union asks about a value what its essence tells, and nothing else. -/
theorem Schema.takes_congr {heap : Heap} {o : Schema} {v w : Value} (lists : o.ListsIn heap)
    (hv : v.ListedIn heap) (hw : w.ListedIn heap) (one : v.essence true = w.essence true) :
    o.takes v = o.takes w := by
  cases o with
  | literal id values =>
    show (values.any fun u => u.sameValue true v) = values.any fun u => u.sameValue true w
    rw [Bool.eq_iff_iff, List.any_eq_true, List.any_eq_true]
    refine exists_congr fun u => and_congr_right fun hu => ?_
    rw [Value.sameValue_iff (lists u hu) hv, Value.sameValue_iff (lists u hu) hw, one]
  | plain id sort =>
    cases sort with
    | string =>
      show v.isText = w.isText
      rw [Bool.eq_iff_iff, Value.isText_iff true hv.1, Value.isText_iff true hw.1, one]
    | number =>
      show v.isFiniteNumber = w.isFiniteNumber
      rw [Bool.eq_iff_iff, Value.isFiniteNumber_iff true hv.1, Value.isFiniteNumber_iff true hw.1,
        one]
    | boolean =>
      show v.isBool = w.isBool
      rw [Bool.eq_iff_iff, Value.isBool_iff true hv.1, Value.isBool_iff true hw.1, one]
    | _ => rfl
  | _ => rfl

/-! ## Literal values -/

/-- **`Heap.Literal`** — the literal values of a heap: null, undefined, truth values, integers,
doubles and texts, and instances of classes that are numbers or texts. -/
def Heap.Literal (heap : Heap) : Type := { v : Value // v.ListedIn heap }

/-- What is no instance of a further class is a literal value of every heap. -/
theorem Value.listedIn_of_isLiteral {v : Value} (heap : Heap) (literal : v.isLiteral = true)
    (plain : ∀ id c, v ≠ .object id c) : v.ListedIn heap := by
  cases v with
  | object id c => exact absurd rfl (plain id c)
  | null | undefined | bool | int | float | text => exact ⟨⟨literal, trivial⟩, trivial⟩
  | _ => cases literal

namespace Heap.Literal

variable {heap : Heap}

theorem equivalence_sameValue (signed : Bool) :
    Equivalence fun x y : heap.Literal => x.1.sameValue signed y.1 = true where
  refl x := (Value.sameValue_iff x.2 x.2).mpr rfl
  symm {x y} h := (Value.sameValue_iff y.2 x.2).mpr ((Value.sameValue_iff x.2 y.2).mp h).symm
  trans {x y z} h h' := by
    have first := (Value.sameValue_iff x.2 y.2).mp h
    have second := (Value.sameValue_iff y.2 z.2).mp h'
    exact (Value.sameValue_iff x.2 z.2).mpr (first.trans second)

/-- **Being one value is an equivalence, which options of unions respect.**  Every literal value is
in its domain.  To count the signs of zeros is to tell apart zeros of opposite sign and nothing
else, and an option of a union answers alike for two values that are one. -/
theorem sameValue_respected (heap : Heap) :
    (∀ v : Value, v.isLiteral = true → (∀ id c, v ≠ .object id c) → v.ListedIn heap) ∧
    (∀ signed, Equivalence fun x y : heap.Literal => x.1.sameValue signed y.1 = true) ∧
    (∀ x y : heap.Literal, x.1.sameValue true y.1 = true → x.1.sameValue false y.1 = true) ∧
    (∀ x y : heap.Literal, x.1.sameValue true y.1 ≠ x.1.sameValue false y.1 ↔
      ∃ minus, x.1.isZero minus = true ∧ y.1.isZero (!minus) = true) ∧
    ∀ (o : Schema) (x y : heap.Literal), o.WellFormed → o.LivesIn heap →
      x.1.sameValue true y.1 = true →
        ∃ taken, o.value.optionTakes x.1 = .ok taken ∧ o.value.optionTakes y.1 = .ok taken := by
  refine ⟨fun v => Value.listedIn_of_isLiteral heap, equivalence_sameValue, ?_, ?_, ?_⟩
  · intro x y h
    exact (Value.sameValue_signed_iff.mp h).1
  · intro x y
    rw [Value.sameValue_ne_iff, Value.opposite_iff x.2.1.2 y.2.1.2]
  · intro o x y wellFormed lives h
    have lists : o.ListsIn heap := wellFormed.here.2.listsIn lives.here
    have one := (Value.sameValue_iff x.2 y.2).mp h
    refine ⟨o.takes x.1, Schema.optionTakes_value o x.1, ?_⟩
    rw [Schema.takes_congr lists x.2 y.2 one]
    exact Schema.optionTakes_value o y.1

/-- The integer 2^53 and the double of that amount are one value, and an option that lists the
integer takes the double too.  The next integer, which the same double is nearest to, is another
value. -/
theorem large_integer_taken :
    let o : Schema := .literal (.made 0) [.null, .int 9007199254740992]
    let double : Value := .float (.made 1) ⟨0x4340000000000000⟩
    (Value.int 9007199254740993).sameValue true double = false ∧
      (Value.int 9007199254740992).sameValue true double = true ∧
      ∃ taken, o.value.optionTakes (.int 9007199254740992) = .ok taken ∧
        o.value.optionTakes double = .ok taken := by
  intro o double
  have apart : (Value.int 9007199254740993).sameValue true double = false := by decide +kernel
  have one : (Value.int 9007199254740992).sameValue true double = true := by decide +kernel
  have wellFormed : o.WellFormed := by
    simp [o, Schema.WellFormed, Schema.IsSound, Schema.id, Schema.PartsSound, Value.MayList,
      Value.isLiteral, Value.datum, Value.HasClass]
  have lives : o.LivesIn (Heap.ofNodes [o]) := by
    simp [o, Schema.LivesIn, Heap.Keeps, Heap.ofNodes, Schema.id, Schema.listed, Heap.KeepsClass]
  have literals := (sameValue_respected (Heap.ofNodes [o])).1
  exact ⟨apart, one, (sameValue_respected (Heap.ofNodes [o])).2.2.2.2 o
    ⟨.int 9007199254740992, literals _ rfl (by simp)⟩ ⟨double, literals _ rfl (by simp [double])⟩
    wellFormed lives one⟩

end Heap.Literal

end Conformance
