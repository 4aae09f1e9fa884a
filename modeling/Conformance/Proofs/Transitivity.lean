/-
# Conformance.Proofs.Transitivity — where the comparison is transitive.

The comparison is not transitive in general: it fails for enumerations, for literals of several
values, for `bigint`, for `any` and for optional fields.  It is transitive on the tame descriptors.
`trans_step` derives transitivity for three of them from that for lower ones, by the kinds of the
three; `Fits.trans` is the induction on their heights together.

An answer may still be missing from a chain: that of the outer pair can need more room than those of
the two inner ones, and then it is given up (`outer_pair_given_up`).
-/
import Conformance.Proofs.Limits
import Conformance.Proofs.Tame

namespace Conformance

namespace Schema

variable {heap : Heap} {a m c : Schema}

/-! ## Transitivity -/

/-- Transitivity for all descriptors that are lower together than the three given ones. -/
def TransBelow (heap : Heap) (a m c : Schema) : Prop :=
  ∀ {x y z : Schema}, Everywhere (IsTameIn heap) x → Everywhere (IsTameIn heap) y →
    Everywhere (IsTameIn heap) z → x.height + y.height + z.height < a.height + m.height + c.height →
    Fits x y → Fits y z → Fits x z

section Trans

variable (ha : Everywhere (IsTameIn heap) a) (hm : Everywhere (IsTameIn heap) m)
  (hc : Everywhere (IsTameIn heap) c) (below : TransBelow heap a m c)

include ha hm hc in
theorem trans_literal (literal : a.kind? = some .literal) (flatM : m.IsFlat) (flatC : c.IsFlat)
    (apart : m.id.same c.id = false) (ham : Fits a m) (hmc : Fits m c) : Fits a c := by
  obtain ⟨i, values, rfl⟩ := form_of_kind? literal
  obtain ⟨v, rfl, -⟩ := ha.here.tame
  have hv : v.ListedIn heap := ha.here.lists v (List.mem_singleton_self v)
  rw [fits_literal_iff ha hm (flatM.kind_ne rfl)] at ham
  rw [fits_literal_iff ha hc (flatC.kind_ne rfl)]
  cases m with
  | literal j values =>
    obtain ⟨w, rfl, -⟩ := hm.here.tame
    have hw : w.ListedIn heap := hm.here.lists w (List.mem_singleton_self w)
    rw [fits_literal_iff hm hc (flatC.kind_ne rfl)] at hmc
    -- The middle lists one value, which is that of the source.
    have same : v.sameValue true w = true := by
      simpa [literalFits, Value.allAmong] using ham
    have one := (Value.sameValue_iff hv hw).mp same
    exact literalFits_congr_of_flat hw hv one.symm hc.here.lists flatC hmc
  | plain j sort =>
    have kind := kind_eq_of_fits flatM flatC (by cases sort <;> simp [kind?, Plain.kind]) apart hmc
    rw [literalFits_plain] at ham
    rwa [literalFits_of_kind? sort kind.symm]
  | enum => exact hm.here.tame.elim
  | union => exact absurd rfl (flatM.kind_ne rfl)
  | _ => cases ham

theorem forall₂_trans_of_mem {P Q R : Schema → Schema → Prop} {xs ys zs : List Schema}
    (h : ∀ x ∈ xs, ∀ y ∈ ys, ∀ z ∈ zs, P x y → Q y z → R x z) (hxy : List.Forall₂ P xs ys)
    (hyz : List.Forall₂ Q ys zs) : List.Forall₂ R xs zs := by
  induction hxy generalizing zs with
  | nil =>
    cases hyz
    exact .nil
  | @cons x y xs ys head _ ih =>
    cases hyz with
    | @cons _ z _ zs head' tail =>
      refine .cons ?_ (ih (fun x hx y hy z hz => ?_) tail)
      · exact h x List.mem_cons_self y List.mem_cons_self z List.mem_cons_self head head'
      · exact h x (List.mem_cons_of_mem _ hx) y (List.mem_cons_of_mem _ hy) z
          (List.mem_cons_of_mem _ hz)

include ha hm hc below in
/-- Two containers of one kind with a third between them. -/
theorem trans_pair (ham : Rule.PairFits Fits a m) (hmc : Rule.PairFits Fits m c) :
    Rule.PairFits Fits a c := by
  have lower : ∀ x ∈ a.children, ∀ y ∈ m.children, ∀ z ∈ c.children, Fits x y → Fits y z →
      Fits x z := by
    intro x hx y hy z hz
    have lowerX := height_lt_of_mem hx
    have lowerY := height_lt_of_mem hy
    have lowerZ := height_lt_of_mem hz
    exact below (ha.child hx) (hm.child hy) (hc.child hz) (by omega)
  cases a with
  | array i x =>
    cases m with
    | array j y =>
      cases c with
      | array k z =>
        exact lower x (by simp [children]) y (by simp [children]) z (by simp [children]) ham hmc
      | _ => exact hmc.elim
    | _ => exact ham.elim
  | tuple i xs =>
    cases m with
    | tuple j ys =>
      cases c with
      | tuple k zs => exact forall₂_trans_of_mem lower ham hmc
      | _ => exact hmc.elim
    | _ => exact ham.elim
  | record i key val =>
    cases m with
    | record j key' val' =>
      cases c with
      | record k key'' val'' =>
        exact ⟨lower key (by simp [children]) key' (by simp [children]) key'' (by simp [children])
            ham.1 hmc.1,
          lower val (by simp [children]) val' (by simp [children]) val'' (by simp [children])
            ham.2 hmc.2⟩
      | _ => exact hmc.elim
    | _ => exact ham.elim
  | object i fields =>
    cases m with
    | object j fields' =>
      cases c with
      | object k fields'' =>
        rw [everywhere_object] at ha hm hc
        intro f hf
        obtain ⟨s, found, hsf⟩ := (fieldFits_iff hm.2 (hc.2 f hf)).mp (hmc f hf)
        have hs := mem_of_lookup found
        obtain ⟨r, found', hrs⟩ := (fieldFits_iff ha.2 (hm.2 _ hs)).mp (ham (f.1, s) hs)
        refine (fieldFits_iff ha.2 (hc.2 f hf)).mpr ⟨r, found', ?_⟩
        exact lower r (List.mem_map_of_mem (f := Prod.snd) (mem_of_lookup found')) s
          (List.mem_map_of_mem (f := Prod.snd) hs) f.2 (List.mem_map_of_mem hf) hrs hsf
      | _ => exact hmc.elim
    | _ => exact ham.elim
  | _ => exact ham.elim

include ha hm hc below in
theorem trans_flat (flatA : a.IsFlat) (flatM : m.IsFlat) (flatC : c.IsFlat)
    (apartAM : a.id.same m.id = false) (apartMC : m.id.same c.id = false)
    (apartAC : a.id.same c.id = false) (ham : Fits a m) (hmc : Fits m c) : Fits a c := by
  by_cases literal : a.kind? = some .literal
  · exact trans_literal ha hm hc literal flatM flatC apartMC ham hmc
  have kindAM := kind_eq_of_fits flatA flatM literal apartAM ham
  have kindMC := kind_eq_of_fits flatM flatC (kindAM ▸ literal) apartMC hmc
  obtain ⟨k, kindA, flat⟩ := flatA
  have kindM : m.kind? = some k := kindAM ▸ kindA
  have kindC : c.kind? = some k := kindMC ▸ kindM
  have notLiteral : k ≠ .literal := fun e => literal (e ▸ kindA)
  rw [fits_iff_of_kind_eq kindA kindM flat notLiteral apartAM] at ham
  rw [fits_iff_of_kind_eq kindM kindC flat notLiteral apartMC] at hmc
  rw [fits_iff_of_kind_eq kindA kindC flat notLiteral apartAC]
  by_cases primitive : k.isPrimitive = true
  · exact .inl primitive
  · exact .inr (trans_pair ha hm hc below (ham.resolve_left primitive) (hmc.resolve_left primitive))

include ha hm hc below in
/-- A flat source, through any tame node. -/
theorem trans_from_flat (flatA : a.IsFlat) (kindM : m.IsFlat ∨ m.kind? = some .union)
    (kindC : c.IsFlat ∨ c.kind? = some .union) (ham : Fits a m) (hmc : Fits m c) : Fits a c := by
  cases apartMC : m.id.same c.id with
  | true => rwa [← hm.eq_of_same hc apartMC]
  | false =>
    have notTop : c.kind? ≠ some .unknown := by
      rcases kindC with flat | union
      · exact flat.kind_ne rfl
      · rw [union]
        nofun
    rcases kindM with flatM | unionM
    · rcases kindC with flatC | unionC
      · cases apartAM : a.id.same m.id with
        | true => rwa [ha.eq_of_same hm apartAM]
        | false =>
          cases apartAC : a.id.same c.id with
          | true => exact fits_of_same apartAC
          | false =>
            exact trans_flat ha hm hc below flatA flatM flatC apartAM apartMC apartAC ham hmc
      · -- The middle conforms to an option of the target, and so does the source.
        obtain ⟨j, options, rfl⟩ := form_of_kind? unionC
        obtain ⟨o, ho, hmo⟩ := (fits_into_union hm hc flatM).mp hmc
        have lower : o.height < (union j options).height := height_lt_of_mem ho
        refine (fits_into_union ha hc flatA).mpr ⟨o, ho, ?_⟩
        exact below ha hm (hc.child ho) (by omega) ham hmo
    · -- The source conforms to an option of the middle, and every option conforms to the target.
      obtain ⟨j, options, rfl⟩ := form_of_kind? unionM
      obtain ⟨o, ho, hao⟩ := (fits_into_union ha hm flatA).mp ham
      obtain ⟨-, each⟩ := (fits_from_union hc hm.here.parts notTop apartMC).mp hmc
      have lower : o.height < (union j options).height := height_lt_of_mem ho
      exact below ha (hm.child ho) hc (by omega) hao (each o ho)

include hm hc in
/-- Only arrays conform to an array, of the nodes that a union can conform to. -/
theorem array_of_fits (kindM : m.IsFlat ∨ m.kind? = some .union) (array : c.kind? = some .array)
    (apart : m.id.same c.id = false) (hmc : Fits m c) : m.kind? = some .array := by
  have notTop : c.kind? ≠ some .unknown := by
    rw [array]
    nofun
  rcases kindM with flatM | unionM
  · by_cases literal : m.kind? = some .literal
    · obtain ⟨i, values, rfl⟩ := form_of_kind? literal
      obtain ⟨v, rfl, -⟩ := hm.here.tame
      obtain ⟨j, element, rfl⟩ := form_of_kind? array
      rw [fits_literal_iff hm hc notTop] at hmc
      cases hmc
    · rw [kind_eq_of_fits flatM ⟨_, array, rfl⟩ literal apart hmc, array]
  · obtain ⟨i, options, rfl⟩ := form_of_kind? unionM
    obtain ⟨notArray, -⟩ := (fits_from_union hc hm.here.parts notTop apart).mp hmc
    exact absurd array notArray

include ha hm hc below in
/-- A union as source, through any tame node. -/
theorem trans_from_union (unionA : a.kind? = some .union) (kindM : m.IsFlat ∨ m.kind? = some .union)
    (notTopM : m.kind? ≠ some .unknown) (notTopC : c.kind? ≠ some .unknown) (ham : Fits a m)
    (hmc : Fits m c) : Fits a c := by
  obtain ⟨i, options, rfl⟩ := form_of_kind? unionA
  cases apartAM : (union i options).id.same m.id with
  | true => rwa [ha.eq_of_same hm apartAM]
  | false =>
    cases apartMC : m.id.same c.id with
    | true => rwa [← hm.eq_of_same hc apartMC]
    | false =>
      cases apartAC : (union i options).id.same c.id with
      | true => exact fits_of_same apartAC
      | false =>
        obtain ⟨notArray, each⟩ := (fits_from_union hm ha.here.parts notTopM apartAM).mp ham
        refine (fits_from_union hc ha.here.parts notTopC apartAC).mpr ⟨fun array => ?_, ?_⟩
        · exact notArray (array_of_fits hm hc kindM array apartMC hmc)
        · intro o ho
          have lower : o.height < (union i options).height := height_lt_of_mem ho
          exact below (ha.child ho) hm hc (by omega) (each o ho) hmc

include ha hm hc below in
/-- One step of the induction: transitivity follows from that for lower descriptors. -/
theorem trans_step (ham : Fits a m) (hmc : Fits m c) : Fits a c := by
  by_cases topC : c.kind? = some .unknown
  · exact fits_of_isTop (by simp [isTop, topC])
  by_cases bottomA : a.kind? = some .never
  · exact fits_of_isBottom (by simp [isBottom, bottomA])
  have topM : m.kind? ≠ some .unknown := fun top => topC (unknown_of_fits hm hc top hmc)
  have topA : a.kind? ≠ some .unknown := fun top => topM (unknown_of_fits ha hm top ham)
  have bottomM : m.kind? ≠ some .never := fun bottom => bottomA (never_of_fits ha hm bottom ham)
  have bottomC : c.kind? ≠ some .never := fun bottom => bottomM (never_of_fits hm hc bottom hmc)
  have proper {s : Schema} (hs : Everywhere (IsTameIn heap) s) (top : s.kind? ≠ some .unknown)
      (bottom : s.kind? ≠ some .never) : s.IsFlat ∨ s.kind? = some .union := by
    rcases hs.here.tame.kinds with flat | union | kind | kind
    · exact .inl flat
    · exact .inr union
    · exact absurd kind top
    · exact absurd kind bottom
  rcases proper ha topA bottomA with flatA | unionA
  · exact trans_from_flat ha hm hc below flatA (proper hm topM bottomM) (proper hc topC bottomC)
      ham hmc
  · exact trans_from_union ha hm hc below unionA (proper hm topM bottomM) topM topC ham hmc

end Trans

/-- **The comparison is transitive on tame descriptors.** -/
theorem Fits.trans (ha : Everywhere (IsTameIn heap) a) (hm : Everywhere (IsTameIn heap) m)
    (hc : Everywhere (IsTameIn heap) c) (ham : Fits a m) (hmc : Fits m c) : Fits a c := by
  -- The induction is on the heights of the three together.
  induction n : a.height + m.height + c.height using Nat.strongRecOn generalizing a m c with
  | ind total ih =>
    refine trans_step ha hm hc ?_ ham hmc
    intro x y z hx hy hz lower hxy hyz
    exact ih _ (n ▸ lower) hx hy hz hxy hyz rfl

theorem IsTame.offersFlat (h : a.IsTame) : a.OffersFlat := by
  cases a with
  | union i options => exact fun o ho => (h o ho).1
  | _ => trivial

end Schema

namespace Policy

open Schema

variable {a m c : Schema}

/-- **Positive answers can be chained on tame descriptors**, unless the comparison of the outer pair
is given up for lack of room, which does not happen to trees that are not too high. -/
theorem conforms_trans (stack : Stack) (deepest : Int) (trace : Bool) (heap : Heap)
    (ha : a.WellFormed) (hm : m.WellFormed) (hc : c.WellFormed) (keptA : a.LivesIn heap)
    (keptM : m.LivesIn heap) (keptC : c.LivesIn heap) (tameA : Everywhere IsTame a)
    (tameM : Everywhere IsTame m) (tameC : Everywhere IsTame c)
    (deep : (a.height + m.height + c.height : Int) ≤ deepest)
    (ham : ((upTo stack deepest trace).conforms a.value m.value).outcome = .ok true)
    (hmc : ((upTo stack deepest trace).conforms m.value c.value).outcome = .ok true) :
    (4 * (a.height + c.height + 1) + stack.most ≤ stack.whole →
        ¬ (upTo stack deepest trace).Overflows a.value c.value) ∧
      (((upTo stack deepest trace).conforms a.value c.value).outcome = .ok true ↔
        ¬ (upTo stack deepest trace).Overflows a.value c.value) := by
  refine ⟨not_overflows_of_flat_bound ha (tameA.mono fun _ h => h.offersFlat)
    (tameC.mono fun _ h => h.offersFlat), ?_⟩
  have tame {s : Schema} (sound : s.WellFormed) (kept : s.LivesIn heap) (h : Everywhere IsTame s) :
      Everywhere (IsTameIn heap) s :=
    (h.and (sound.and kept)).mono fun _ h => ⟨h.1, h.2.1.2, h.2.2⟩
  have outer : Fits a c :=
    Fits.trans (tame ha keptA tameA) (tame hm keptM tameM) (tame hc keptC tameC)
      (fits_of_conforms ham) (fits_of_conforms hmc)
  rw [conforms_eq_true_iff (by omega), and_iff_right outer]

/-- Unions that share a node, which nothing but that node conforms to. -/
theorem shared_option_conforms :
    let null : Schema := .plain (.made 0) .null
    let x : Schema := .literal (.made 1) [.text "x"]
    let a : Schema := .union (.made 2) [x, null]
    let text : Schema := .plain (.made 3) .string
    let m : Schema := .union (.made 4) [text, null]
    let text' : Schema := .plain (.made 5) .string
    let top : Schema := .plain (.made 6) .unknown
    let list : Schema := .array (.made 7) top
    let c : Schema := .union (.made 8) [list, null, text']
    ((upTo .standard 4 false).conforms a.value m.value).outcome = .ok true ∧
      ((upTo .standard 4 false).conforms m.value c.value).outcome = .ok true ∧
      ((upTo .standard 4 false).conforms a.value c.value).outcome = .ok true := by
  intro null x a text m text' top list c
  refine ⟨rfl, rfl, ?_⟩
  have chain := conforms_trans (a := a) (m := m) (c := c) .standard 4 false
    (.ofNodes [null, x, a, text, m, text', top, list, c]) ?_ ?_ ?_ ?_ ?_ ?_ ?_ ?_ ?_
    (by decide) rfl rfl
  · exact chain.2.mpr (chain.1 (by decide))
  · simp [WellFormed, a, x, null, IsSound, PartsSound, Schema.id, Value.MayList, Value.isLiteral,
      Value.datum, Value.HasClass]
  · simp [WellFormed, m, text, null, IsSound, PartsSound, Schema.id]
  · simp [WellFormed, c, list, top, text', null, IsSound, PartsSound, Schema.id]
  · simp [LivesIn, a, x, null, Heap.Keeps, Heap.KeepsClass, Schema.id, listed, Heap.ofNodes]
  · simp [LivesIn, a, x, null, m, text, Heap.Keeps, Schema.id, listed, Heap.ofNodes]
  · simp [LivesIn, a, x, null, m, text, c, list, top, text', Heap.Keeps, Schema.id, listed,
      Heap.ofNodes]
  · simp [a, x, null, IsTame, kind?, Plain.kind]
  · simp [m, text, null, IsTame, kind?, Plain.kind]
  · simp [c, list, top, text', null, IsTame, kind?, Plain.kind]

end Policy

/-! ## Chains that are given up -/

namespace Schema

/-- Tuples of one item inside each other, every tuple being the only option of a union. -/
def nestedUnions (first : Nat) : Nat → Schema :=
  tower (fun n s =>
      .union (.made (6 * (n + 1) + first)) [.tuple (.made (6 * (n + 1) + first + 1)) [s]])
    (.plain (.made first) .string)

/-- The node that bears an identity: tuples without unions, and two families with them. -/
def nestedNode (n : Nat) : Schema :=
  if n % 6 = 4 then tuples 6 4 (n / 6)
  else if n % 2 = 0 then nestedUnions (n % 6) (n / 6)
  else .tuple (.made n) [nestedUnions (n % 6 - 1) (n / 6 - 1)]

def heapOfNested : Heap where
  node := nestedNode
  cls _ := .base .object

theorem nestedUnions_wellFormed (first n : Nat) : (nestedUnions first n).WellFormed := by
  refine everywhere_tower ?_ (fun n s _ hs => ?_) n
  · exact everywhere_plain.mpr ⟨⟨_, rfl⟩, trivial⟩
  · refine everywhere_union.mpr ⟨⟨⟨_, rfl⟩, nofun⟩, ?_⟩
    simpa [IsSound, PartsSound, Schema.id] using hs

theorem tuples_tame (stride first n : Nat) : Everywhere IsTame (tuples stride first n) := by
  refine everywhere_tower ?_ (fun n s _ hs => ?_) n
  · exact everywhere_plain.mpr (by simp [IsTame])
  · exact everywhere_tuple.mpr ⟨trivial, List.forall_mem_singleton.mpr hs⟩

theorem nestedUnions_tame (first n : Nat) : Everywhere IsTame (nestedUnions first n) := by
  refine everywhere_tower ?_ (fun n s _ hs => ?_) n
  · exact everywhere_plain.mpr (by simp [IsTame])
  · simpa [IsTame, kind?] using hs

theorem tuples_livesIn_heapOfNested (n : Nat) : (tuples 6 4 n).LivesIn heapOfNested := by
  refine tuples_livesIn (fun n => ?_) n
  show nestedNode (6 * n + 4) = _
  rw [nestedNode, if_pos (by omega), show (6 * n + 4) / 6 = n by omega]

theorem nestedUnions_livesIn {first : Nat} (h : first = 0 ∨ first = 2) (n : Nat) :
    (nestedUnions first n).LivesIn heapOfNested := by
  have node (n : Nat) : nestedNode (6 * n + first) = nestedUnions first n := by
    rw [nestedNode, if_neg (by omega), if_pos (by omega), show (6 * n + first) % 6 = first by omega,
      show (6 * n + first) / 6 = n by omega]
  have inner (n : Nat) : nestedNode (6 * (n + 1) + first + 1) =
      .tuple (.made (6 * (n + 1) + first + 1)) [nestedUnions first n] := by
    rw [nestedNode, if_neg (by omega), if_neg (by omega),
      show (6 * (n + 1) + first + 1) % 6 - 1 = first by omega,
      show (6 * (n + 1) + first + 1) / 6 - 1 = n by omega]
  refine everywhere_tower ?_ (fun n s same hs => ?_) n
  · refine everywhere_plain.mpr ⟨fun m hm => ?_, nofun⟩
    cases hm
    have bottom := node 0
    rwa [Nat.mul_zero, Nat.zero_add] at bottom
  · subst same
    refine everywhere_union.mpr ⟨⟨fun m hm => ?_, nofun⟩, List.forall_mem_singleton.mpr ?_⟩
    · cases hm
      exact node (n + 1)
    · refine everywhere_tuple.mpr ⟨⟨fun m hm => ?_, nofun⟩, List.forall_mem_singleton.mpr hs⟩
      cases hm
      exact inner n

theorem nestedUnions_height (first n : Nat) : (nestedUnions first n).height = 2 * n := by
  have level (n : Nat) (s : Schema) :
      (union (.made (6 * (n + 1) + first)) [tuple (.made (6 * (n + 1) + first + 1)) [s]]).height =
        s.height + 2 := by
    simp [height, heightOver]
  rw [nestedUnions, height_tower level n]
  simp [height]

/-- A level is left by the option of the union, then by the items of the tuples. -/
theorem nestedUnions_descend_tuples (n : Nat) :
    Descends (10 * n) (2 * n) (nestedUnions 0 n) (tuples 6 4 n) := by
  refine descends_tower 10 2 (.text rfl) (fun n more depth s t below => ?_) n
  rw [show 10 + more = 5 + (5 + more) by omega]
  refine .down (union_comesDownTo ?_ (.inl rfl)) (.down (tuple_comesDownTo ?_) below)
  · simp [Ident.same, Schema.id]
  · simp [Ident.same]

theorem tuples_descend_unions (n : Nat) :
    Descends (10 * n) (2 * n) (tuples 6 4 n) (nestedUnions 2 n) := by
  refine descends_tower 10 2 (.text rfl) (fun n more depth s t below => ?_) n
  rw [show 10 + more = 5 + (5 + more) by omega]
  refine .down (comesDownTo_union ?_) (.down (tuple_comesDownTo ?_) below)
  · simp [Ident.same]
  · simp [Ident.same]

/-- Between unions a level takes both options in turn, and so more calls than either pair above. -/
theorem nestedUnions_descend_unions (n : Nat) :
    Descends (15 * n) (3 * n) (nestedUnions 0 n) (nestedUnions 2 n) := by
  refine descends_tower 15 3 (.text rfl) (fun n more depth s t below => ?_) n
  rw [show 15 + more = 5 + (5 + (5 + more)) by omega]
  refine .down (union_comesDownTo ?_ (.inr rfl))
    (.down (comesDownTo_union ?_) (.down (tuple_comesDownTo ?_) below))
  · simp [Ident.same, Schema.id]
  · simp [Ident.same]
  · simp [Ident.same]

end Schema

namespace Policy

open Schema

/-- **A chain whose ends are too far apart.**  The inner pairs are compared to the end, and no depth
limit stands in the way; the outer pair takes half as many calls again, and is given up. -/
theorem outer_pair_given_up :
    (nestedUnions 0 90).WellFormed ∧ (tuples 6 4 90).WellFormed ∧ (nestedUnions 2 90).WellFormed ∧
      (nestedUnions 0 90).LivesIn heapOfNested ∧ (tuples 6 4 90).LivesIn heapOfNested ∧
      (nestedUnions 2 90).LivesIn heapOfNested ∧
      Everywhere IsTame (nestedUnions 0 90) ∧ Everywhere IsTame (tuples 6 4 90) ∧
      Everywhere IsTame (nestedUnions 2 90) ∧
      ((nestedUnions 0 90).height + (tuples 6 4 90).height + (nestedUnions 2 90).height : Int) ≤
        1000 ∧
      ((upTo .standard 1000 false).conforms (nestedUnions 0 90).value (tuples 6 4 90).value).outcome =
        .ok true ∧
      ((upTo .standard 1000 false).conforms (tuples 6 4 90).value (nestedUnions 2 90).value).outcome =
        .ok true ∧
      ((upTo .standard 1000 false).conforms (nestedUnions 0 90).value (nestedUnions 2 90).value).outcome =
        .ok false := by
  refine ⟨nestedUnions_wellFormed 0 _, tuples_wellFormed 6 4 _, nestedUnions_wellFormed 2 _,
    nestedUnions_livesIn (.inl rfl) _, tuples_livesIn_heapOfNested _,
    nestedUnions_livesIn (.inr rfl) _,
    nestedUnions_tame 0 _, tuples_tame 6 4 _, nestedUnions_tame 2 _, ?_, ?_, ?_, ?_⟩
  · rw [nestedUnions_height, nestedUnions_height, tuples_height]
    decide
  · exact conforms_of_descends (nestedUnions_descend_tuples 90) (by decide) (by decide)
  · exact conforms_of_descends (tuples_descend_unions 90) (by decide) (by decide)
  · exact conforms_outcome_of_overflows
      (overflows_of_descends (nestedUnions_descend_unions 90) (by decide) (by decide))

end Policy

end Conformance
