/-
# Conformance.Proofs.Tabulation — the table of a catalog and its two views.

A table says of two names whether they conform (`Table.Holds`).  A view lists pairs of names in
strict order, and so it is determined by the pairs that are in it (`Lists.eq`): those of different
names that conform, or those in order that conform both ways.  That no pair is listed twice takes a
table with one row for each pair of names.

The table of a catalog of well-formed descriptors is such a table, with a row for every ordered pair
and the answer of the comparison in it: every comparison answers, also one that is given up.
-/
import Conformance.Catalog
import Conformance.Proofs.Fieldwise
import Conformance.Proofs.Outcome
import Conformance.Proofs.Robustness
import Mathlib.Data.List.Nodup

namespace Conformance

/-! ## The order of pairs of names -/

namespace Table

section Order

variable {p q : String × String} {l l' : List (String × String)}

/-- **`Before p q`** — in strict order, by the first names and then by the second. -/
def Before (p q : String × String) : Prop := p.1 < q.1 ∨ p.1 = q.1 ∧ p.2 < q.2

theorem Before.ne (h : Before p q) : p ≠ q := by
  rintro rfl
  rcases h with first | ⟨-, second⟩
  · exact String.lt_irrefl _ first
  · exact String.lt_irrefl _ second

theorem Before.trans {r : String × String} (h : Before p q) (h' : Before q r) : Before p r := by
  rcases h with first | ⟨first, second⟩ <;> rcases h' with first' | ⟨first', second'⟩
  · exact .inl (String.lt_trans first first')
  · exact .inl (first' ▸ first)
  · exact .inl (first ▸ first')
  · exact .inr ⟨first.trans first', String.lt_trans second second'⟩

theorem before_or_eq_or_before (p q : String × String) : Before p q ∨ p = q ∨ Before q p := by
  have compared (s t : String) : s < t ∨ s = t ∨ t < s := by
    by_cases less : s < t
    · exact .inl less
    · by_cases more : t < s
      · exact .inr (.inr more)
      · exact .inr (.inl (String.le_antisymm (String.not_lt.mp more) (String.not_lt.mp less)))
  rcases compared p.1 q.1 with less | same | more
  · exact .inl (.inl less)
  · rcases compared p.2 q.2 with less' | same' | more'
    · exact .inl (.inr ⟨same, less'⟩)
    · exact .inr (.inl (Prod.ext same same'))
    · exact .inr (.inr (.inr ⟨same.symm, more'⟩))
  · exact .inr (.inr (.inl more))

theorem pairLE_iff : pairLE p q = true ↔ p = q ∨ Before p q := by
  rw [Prod.ext_iff, Before]
  simp only [pairLE, Bool.or_eq_true, Bool.and_eq_true, decide_eq_true_eq, beq_iff_eq]
  grind

theorem pairLE_trans (p q r : String × String) (h : pairLE p q = true) (h' : pairLE q r = true) :
    pairLE p r = true := by
  rw [pairLE_iff] at *
  rcases h with rfl | before
  · exact h'
  · rcases h' with rfl | before'
    · exact .inr before
    · exact .inr (before.trans before')

theorem pairLE_total (p q : String × String) : (pairLE p q || pairLE q p) = true := by
  rw [Bool.or_eq_true, pairLE_iff, pairLE_iff]
  rcases before_or_eq_or_before p q with before | same | after
  · exact .inl (.inr before)
  · exact .inl (.inl same)
  · exact .inr (.inr after)

/-- What is sorted and has no pair twice is in strict order. -/
theorem pairwise_before_mergeSort (once : l.Nodup) : (l.mergeSort pairLE).Pairwise Before := by
  have sorted : (l.mergeSort pairLE).Pairwise fun p q => pairLE p q = true :=
    List.pairwise_mergeSort pairLE_trans pairLE_total l
  have apart : (l.mergeSort pairLE).Nodup := (List.mergeSort_perm l pairLE).nodup_iff.mpr once
  refine (sorted.and apart).imp fun ⟨le, ne⟩ => ?_
  exact (pairLE_iff.mp le).resolve_left ne

/-- **`Lists view P`** — the view holds the pairs with the property, in strict order. -/
structure Lists (view : List (String × String)) (P : String → String → Prop) : Prop where
  sorted : view.Pairwise Before
  mem_iff : ∀ s t, (s, t) ∈ view ↔ P s t

/-- **What is listed determines the view.** -/
theorem Lists.eq {P P' : String → String → Prop} (h : Lists l P) (h' : Lists l' P')
    (alike : ∀ s t, P s t ↔ P' s t) : l = l' := by
  have perm : l.Perm l' := by
    refine (List.perm_ext_iff_of_nodup (h.sorted.imp Before.ne) (h'.sorted.imp Before.ne)).mpr ?_
    rintro ⟨s, t⟩
    rw [h.mem_iff, h'.mem_iff, alike]
  refine perm.eq_of_pairwise (fun p q _ _ before after => ?_) h.sorted h'.sorted
  exact absurd rfl (before.trans after).ne

end Order

/-! ## Views of a table -/

section Views

variable {rows rows' : List Row} {s t : String}

/-- **`Holds rows s t`** — the table says that `s` conforms to `t`. -/
def Holds (rows : List Row) (s t : String) : Prop :=
  ∃ r ∈ rows, r.source = some s ∧ r.target = some t ∧ r.assignable = some true

/-- **`OneRowEach rows`** — no two rows are about the same names. -/
def OneRowEach (rows : List Row) : Prop :=
  rows.Pairwise fun r r' => (r.source, r.target) ≠ (r'.source, r'.target)

theorem pair?_eq_some_iff {r : Row} : r.pair? = some (s, t) ↔
    s ≠ t ∧ r.source = some s ∧ r.target = some t ∧ r.assignable = some true := by
  grind [Row.pair?]

theorem mem_conforming : (s, t) ∈ conforming rows ↔ s ≠ t ∧ Holds rows s t := by
  rw [conforming, List.mem_mergeSort, List.mem_filterMap]
  simp only [pair?_eq_some_iff, Holds]
  grind

theorem nodup_conforming (once : OneRowEach rows) : (conforming rows).Nodup := by
  rw [conforming, (List.mergeSort_perm _ pairLE).nodup_iff]
  refine List.Pairwise.filterMap Row.pair? (fun r r' apart p hp q hq same => apart ?_) once
  obtain ⟨-, source, target, -⟩ := pair?_eq_some_iff.mp hp
  obtain ⟨-, source', target', -⟩ := pair?_eq_some_iff.mp hq
  rw [source, target, source', target', same]

theorem lists_conforming (once : OneRowEach rows) :
    Lists (conforming rows) fun s t => s ≠ t ∧ Holds rows s t where
  sorted := pairwise_before_mergeSort
    ((List.mergeSort_perm _ pairLE).nodup_iff.mp (nodup_conforming once))
  mem_iff _ _ := mem_conforming

theorem mem_equivalent :
    (s, t) ∈ equivalent rows ↔ s < t ∧ Holds rows s t ∧ Holds rows t s := by
  have bothWays : (s, t) ∈ equivalent rows ↔
      s < t ∧ (s, t) ∈ conforming rows ∧ (t, s) ∈ conforming rows := by
    simp only [equivalent, List.mem_mergeSort, List.mem_filter, List.mem_flatMap, List.mem_map,
      beq_iff_eq, decide_eq_true_eq]
    constructor
    · rintro ⟨⟨p, forth, q, ⟨back, turned⟩, rfl⟩, less⟩
      rw [Prod.swap_eq_iff_eq_swap.mp turned] at back
      exact ⟨less, forth, back⟩
    · rintro ⟨less, forth, back⟩
      exact ⟨⟨(s, t), forth, (t, s), ⟨back, rfl⟩, rfl⟩, less⟩
  rw [bothWays, mem_conforming, mem_conforming]
  constructor
  · rintro ⟨less, ⟨-, forth⟩, -, back⟩
    exact ⟨less, forth, back⟩
  · rintro ⟨less, forth, back⟩
    have apart : s ≠ t := fun same => String.lt_irrefl t (same ▸ less)
    exact ⟨less, ⟨apart, forth⟩, apart.symm, back⟩

theorem lists_equivalent (once : OneRowEach rows) :
    Lists (equivalent rows) fun s t => s < t ∧ Holds rows s t ∧ Holds rows t s := by
  have once' := nodup_conforming once
  refine ⟨pairwise_before_mergeSort (.filter _ (List.nodup_flatMap.mpr ⟨fun p _ => ?_, ?_⟩)),
    fun _ _ => mem_equivalent⟩
  · -- Only the pair turned around is a way back, and it is there once.
    have back : ((conforming rows).filter fun q => q.swap == p) =
        (conforming rows).filter fun q => q == p.swap := by
      refine List.filter_congr fun q _ => ?_
      rw [Bool.eq_iff_iff, beq_iff_eq, beq_iff_eq, Prod.swap_eq_iff_eq_swap]
    rw [back, List.filter_beq, List.map_replicate, List.nodup_replicate]
    exact List.nodup_iff_count_le_one.mp once' p.swap
  · refine once'.imp fun apart r hr hr' => apart ?_
    obtain ⟨-, -, rfl⟩ := List.mem_map.mp hr
    obtain ⟨-, -, same⟩ := List.mem_map.mp hr'
    exact same.symm

/-- **Both views are determined by what the table says.** -/
theorem views_eq (once : OneRowEach rows) (once' : OneRowEach rows')
    (alike : ∀ s t, Holds rows s t ↔ Holds rows' s t) :
    conforming rows = conforming rows' ∧ equivalent rows = equivalent rows' := by
  refine ⟨(lists_conforming once).eq (lists_conforming once') fun s t => ?_,
    (lists_equivalent once).eq (lists_equivalent once') fun s t => ?_⟩
  · rw [alike]
  · rw [alike, alike]

end Views

end Table

/-! ## The table of a catalog -/

open Schema

namespace Run

/-- Runs that all answer, answer together. -/
theorem outcome_mapM {α β : Type} {f : α → Run β} {g : α → β} {l : List α}
    (answers : ∀ x ∈ l, (f x).outcome = .ok (g x)) : (l.mapM f).outcome = .ok (l.map g) := by
  induction l with
  | nil => rfl
  | cons x rest ih =>
    obtain ⟨first, later⟩ := List.forall_mem_cons.mp answers
    rw [List.mapM_cons, outcome_bind, first]
    show ((rest.mapM f) >>= fun ys => pure (g x :: ys)).outcome = _
    rw [outcome_bind, ih later]
    rfl

end Run

namespace Catalog

/-- A catalog of trees. -/
def ofEntries (entries : List (String × Schema)) : Catalog := entries.map fun e => (e.1, e.2.value)

/-- The row of a pair that is compared to the end. -/
def settledRow (p : Policy) (source target : String × Value) : Row :=
  ⟨source.1, target.1, source.2.kind?.map Kind.name, target.2.kind?.map Kind.name,
    (p.conforms source.2 target.2).outcome.toOption⟩

/-- The rows of all pairs. -/
def settledRows (p : Policy) (catalog : Catalog) : List Row :=
  catalog.pairs.map fun e => settledRow p e.1 e.2

theorem length_settledRows (p : Policy) (catalog : Catalog) :
    (settledRows p catalog).length = catalog.length * catalog.length := by
  simp [settledRows, pairs, List.length_flatMap, List.map_const']

theorem mem_pairs {catalog : Catalog} {s t : String × Value} :
    (s, t) ∈ catalog.pairs ↔ s ∈ catalog ∧ t ∈ catalog := by
  simp [pairs]

/-- Pairs stand in rows, one for each first side. -/
theorem getElem?_pairs {α β : Type} (l : List α) (m : List β) (i : Nat) {j : Nat}
    (hj : j < m.length) : (l.flatMap fun s => m.map fun t => (s, t))[i * m.length + j]? =
      l[i]?.bind fun s => m[j]?.map fun t => (s, t) := by
  induction l generalizing i with
  | nil => simp
  | cons s rest ih =>
    rw [List.flatMap_cons]
    cases i with
    | zero =>
      rw [List.getElem?_append_left (by simpa using hj)]
      simp [hj]
    | succ i =>
      have place : (i + 1) * m.length + j = (m.map fun t => (s, t)).length + (i * m.length + j) := by
        rw [List.length_map, Nat.succ_mul]
        omega
      rw [place, List.getElem?_append_right (Nat.le_add_right _ _), Nat.add_sub_cancel_left, ih]
      rfl

theorem getElem?_settledRows (p : Policy) {catalog : Catalog} {i j : Nat} {s t : String × Value}
    (hs : catalog[i]? = some s) (ht : catalog[j]? = some t) :
    (settledRows p catalog)[i * catalog.length + j]? = some (settledRow p s t) := by
  obtain ⟨hj, -⟩ := List.getElem?_eq_some_iff.mp ht
  rw [settledRows, List.getElem?_map, pairs, getElem?_pairs catalog catalog i hj, hs, ht]
  rfl

section Tabulate

variable {p : Policy} {catalog : Catalog}

theorem verify_eq_ok (nonempty : catalog ≠ []) (kinds : ∀ e ∈ catalog, e.2.kind?.isSome) :
    catalog.verify = .ok () := by
  have none : catalog.strangers = [] := by
    rw [strangers, List.map_eq_nil_iff, List.filter_eq_nil_iff]
    intro e he
    simpa using Option.isSome_iff_ne_none.mp (kinds e he)
  simp [verify, none, nonempty]

/-- Where every comparison answers, the table is made. -/
theorem outcome_tabulate
    (answers : ∀ s ∈ catalog, ∀ t ∈ catalog, ∃ v, (p.conforms s.2 t.2).outcome = .ok v) :
    (tabulate p catalog).outcome = .ok (settledRows p catalog) := by
  have rows : (catalog.pairs.mapM fun e => row p e.1 e.2).outcome = .ok (settledRows p catalog) := by
    refine Run.outcome_mapM ?_
    rintro ⟨s, t⟩ pair
    obtain ⟨hs, ht⟩ := mem_pairs.mp pair
    obtain ⟨v, answer⟩ := answers s hs t ht
    rw [row, Run.outcome_bind, settledRow, answer]
    rfl
  rw [tabulate, Run.outcome_bind, rows]
  rfl

theorem oneRowEach (distinct : (catalog.map Prod.fst).Nodup) :
    Table.OneRowEach (settledRows p catalog) := by
  have names : catalog.Pairwise fun s t => s.1 ≠ t.1 := List.pairwise_map.mp distinct
  rw [Table.OneRowEach, settledRows, List.pairwise_map, pairs, List.pairwise_flatMap]
  constructor
  · intro s _
    refine List.pairwise_map.mpr (names.imp fun apart same => apart ?_)
    exact Option.some.inj (congrArg Prod.snd same)
  · refine names.imp fun apart x hx y hy same => apart ?_
    obtain ⟨_, _, rfl⟩ := List.mem_map.mp hx
    obtain ⟨_, _, rfl⟩ := List.mem_map.mp hy
    exact Option.some.inj (congrArg Prod.fst same)

/-- The table says what the comparison answers. -/
theorem holds_iff {s t : String} :
    Table.Holds (settledRows p catalog) s t ↔
      ∃ u v, (s, u) ∈ catalog ∧ (t, v) ∈ catalog ∧ (p.conforms u v).outcome = .ok true := by
  constructor
  · rintro ⟨r, hr, source, target, yes⟩
    obtain ⟨⟨e, f⟩, pair, rfl⟩ := List.mem_map.mp hr
    obtain ⟨he, hf⟩ := mem_pairs.mp pair
    obtain rfl : e.1 = s := Option.some.inj source
    obtain rfl : f.1 = t := Option.some.inj target
    exact ⟨e.2, f.2, he, hf, toOption_eq_some_iff.mp yes⟩
  · rintro ⟨u, v, hu, hv, yes⟩
    refine ⟨settledRow p (s, u) (t, v), ?_, rfl, rfl, toOption_eq_some_iff.mpr yes⟩
    exact List.mem_map.mpr ⟨((s, u), (t, v)), mem_pairs.mpr ⟨hu, hv⟩, rfl⟩

end Tabulate

/-- Every comparison of descriptors answers. -/
theorem answers_of_entries {stack : Stack} {entries : List (String × Schema)} {deepest : Int}
    {trace : Bool} : ∀ s ∈ ofEntries entries, ∀ t ∈ ofEntries entries,
      ∃ v, ((Policy.upTo stack deepest trace).conforms s.2 t.2).outcome = .ok v := by
  intro s hs t ht
  obtain ⟨e, -, rfl⟩ := List.mem_map.mp hs
  obtain ⟨f, -, rfl⟩ := List.mem_map.mp ht
  exact Policy.conforms_answers_of_clear ⟨isClear_value e.2, isClear_value f.2⟩

theorem getElem?_ofEntries {entries : List (String × Schema)} (k : Fin entries.length) :
    (ofEntries entries)[(k : Nat)]? = some (entries[k].1, entries[k].2.value) := by
  rw [ofEntries, List.getElem?_map, List.getElem?_eq_getElem k.isLt]
  rfl

/-- The row of two entries stands where their places say, and shows what their comparison gives. -/
theorem row_of_entries (stack : Stack) (deepest : Int) (trace : Bool)
    {entries : List (String × Schema)} (i j : Fin entries.length) :
    let p := Policy.upTo stack deepest trace
    ∃ v, (p.conforms entries[i].2.value entries[j].2.value).outcome = .ok v ∧
      (settledRows p (ofEntries entries))[i * entries.length + j]? =
        some ⟨entries[i].1, entries[j].1, entries[i].2.value.kind?.map Kind.name,
          entries[j].2.value.kind?.map Kind.name, v⟩ := by
  intro p
  obtain ⟨v, answer⟩ : ∃ v, (p.conforms entries[i].2.value entries[j].2.value).outcome = .ok v :=
    answers_of_entries _ (List.mem_of_getElem? (getElem?_ofEntries i)) _
      (List.mem_of_getElem? (getElem?_ofEntries j))
  refine ⟨v, answer, ?_⟩
  have place := getElem?_settledRows p (getElem?_ofEntries i) (getElem?_ofEntries j)
  rw [show (ofEntries entries).length = entries.length from List.length_map _, settledRow,
    answer] at place
  exact place

/-- **The table of a catalog and its views.**  The table has a row for every ordered pair, in the
order of the catalog, and the diagonal is true.  The views list what it says in strict order, and do
not depend on the order of the catalog. -/
theorem tabulate_views (stack : Stack) (entries : List (String × Schema)) (deepest : Int)
    (trace : Bool) (nonempty : entries ≠ []) (distinct : (entries.map Prod.fst).Nodup)
    (wf : ∀ e ∈ entries, e.2.WellFormed) (kinds : ∀ e ∈ entries, e.2.value.kind?.isSome)
    (nonneg : 0 ≤ deepest) :
    let p := Policy.upTo stack deepest trace
    let n := entries.length
    (ofEntries entries).verify = .ok () ∧
    ∃ rows, (tabulate p (ofEntries entries)).outcome = .ok rows ∧
      rows.length = n * n ∧
      (∀ i j : Fin n, ∃ v,
        (p.conforms entries[i].2.value entries[j].2.value).outcome = .ok v ∧
        rows[i * n + j]? = some ⟨entries[i].1, entries[j].1,
          entries[i].2.value.kind?.map Kind.name, entries[j].2.value.kind?.map Kind.name, v⟩ ∧
        (i = j → v = true)) ∧
      Table.Lists (Table.conforming rows) (fun s t => s ≠ t ∧ Table.Holds rows s t) ∧
      Table.Lists (Table.equivalent rows)
        (fun s t => s < t ∧ Table.Holds rows s t ∧ Table.Holds rows t s) ∧
      ∀ others, others.Perm entries →
        ∃ rows', (tabulate p (ofEntries others)).outcome = .ok rows' ∧
          Table.conforming rows' = Table.conforming rows ∧
          Table.equivalent rows' = Table.equivalent rows := by
  intro p n
  have answers : ∀ s ∈ ofEntries entries, ∀ t ∈ ofEntries entries,
      ∃ v, (p.conforms s.2 t.2).outcome = .ok v := answers_of_entries
  have names : ((ofEntries entries).map Prod.fst).Nodup := by
    simpa [ofEntries, Function.comp_def] using distinct
  have once := @oneRowEach p _ names
  refine ⟨verify_eq_ok (by simpa [ofEntries] using nonempty) ?_, _, outcome_tabulate answers, ?_, ?_,
    Table.lists_conforming once, Table.lists_equivalent once, ?_⟩
  · intro _ h
    obtain ⟨e, he, rfl⟩ := List.mem_map.mp h
    exact kinds e he
  · rw [length_settledRows, ofEntries, List.length_map]
  · intro i j
    obtain ⟨v, answer, place⟩ := row_of_entries stack deepest trace i j
    refine ⟨v, answer, place, ?_⟩
    rintro rfl
    have yes : (p.conforms entries[i].2.value entries[i].2.value).outcome = .ok true :=
      Policy.conforms_self nonneg (wf entries[i] (List.getElem_mem i.isLt))
    exact Except.ok.inj (answer.symm.trans yes)
  · intro others perm
    have mem {e : String × Value} : e ∈ ofEntries others ↔ e ∈ ofEntries entries :=
      (perm.map _).mem_iff
    refine ⟨_, outcome_tabulate fun s hs t ht => answers s (mem.mp hs) t (mem.mp ht), ?_⟩
    refine Table.views_eq (oneRowEach ?_) once fun s t => ?_
    · exact ((perm.map _).map _).nodup_iff.mpr names
    · simp only [holds_iff, mem]

/-- A text, and two ways to say that it may be null. -/
theorem three_entries_tabulated :
    let text (n : Nat) : Schema := .plain (.made n) .string
    let entries : List (String × Schema) := [("word", text 0),
      ("maybe", .wrap (.made 1) .nullable (text 2)),
      ("either", .union (.made 3) [text 4, .plain (.made 5) .null])]
    ∃ rows, (tabulate (Policy.upTo .standard 4 false) (ofEntries entries)).outcome = .ok rows ∧
      rows.length = 9 ∧
      Table.Lists (Table.conforming rows) (fun s t => s ≠ t ∧ Table.Holds rows s t) ∧
      ∃ rows', (tabulate (Policy.upTo .standard 4 false) (ofEntries entries.reverse)).outcome = .ok rows' ∧
        Table.conforming rows' = Table.conforming rows ∧
        Table.equivalent rows' = Table.equivalent rows := by
  intro text entries
  have wf : ∀ e ∈ entries, e.2.WellFormed := by
    simp [entries, text, Schema.WellFormed, IsSound, PartsSound, Schema.id]
  obtain ⟨-, rows, made, length, -, listed, -, turned⟩ :=
    tabulate_views .standard entries 4 false (by simp [entries]) (by simp [entries]) wf
      (by simp [entries]; decide) (by decide)
  exact ⟨rows, made, length, listed, turned _ (List.reverse_perm entries)⟩

end Catalog

end Conformance
