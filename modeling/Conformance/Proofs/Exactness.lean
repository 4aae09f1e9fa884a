/-
# Conformance.Proofs.Exactness — on the structural core, answers are exact.

The core are the descriptors built from text, numbers, truth values and `unknown`, literals of one
text or truth value, arrays, tuples, records and objects.  There the comparison answers true exactly
when the target describes every value of the source.

One half is soundness.  For the other, a pair that is not accepted must be told apart by a value,
and one that a program can have (`Subject.Real`): a map, for instance, has every key once.  The
value is built along the source.  Every core descriptor describes something, so a value that one
part tells apart can be completed by values of the other parts; `fits_of_includesReal` is that
argument read backwards, by induction on the source.
-/
import Conformance.Proofs.Limits
import Conformance.Proofs.Soundness
import Mathlib.Data.List.Nodup
import Mathlib.Tactic.Choose

namespace Conformance

namespace Subject

/-- **`Real`** — a value that a program can have: plain data is that of a listed value, and maps and
records have every key once. -/
inductive Real : Subject → Prop where
  | scalar (v : Value) : v.MayList → Real (.scalar (v.essence false))
  | list {items : List Subject} : (∀ x ∈ items, Real x) → Real (.list items)
  | tuple {items : List Subject} : (∀ x ∈ items, Real x) → Real (.tuple items)
  | map {entries : List (Subject × Subject)} : (entries.map Prod.fst).Nodup →
      (∀ e ∈ entries, Real e.1) → (∀ e ∈ entries, Real e.2) → Real (.map entries)
  | record {entries : List (Subject × Subject)} : (entries.map Prod.fst).Nodup →
      (∀ e ∈ entries, Real e.1) → (∀ e ∈ entries, Real e.2) → Real (.record entries)

/-- The kind of node that a value speaks for. -/
def sort : Subject → Kind
  | .scalar (.truth _) => .boolean
  | .scalar (.number _ _) => .number
  | .scalar (.text _ _) => .string
  | .scalar .undefined => .undefined
  | .scalar _ => .null
  | .list _ => .array
  | .tuple _ => .tuple
  | .map _ => .object
  | .record _ => .record
  | .atom _ => .custom

end Subject

namespace Schema

/-- **`CoreOf k s`** — a node of the structural core, with values of sort `k`; those of `unknown`
are of any sort. -/
inductive CoreOf : Kind → Schema → Prop where
  | string (id : Ident) : CoreOf .string (.plain id .string)
  | number (id : Ident) : CoreOf .number (.plain id .number)
  | boolean (id : Ident) : CoreOf .boolean (.plain id .boolean)
  | unknown (id : Ident) : CoreOf .unknown (.plain id .unknown)
  | text (id : Ident) {v : Value} : v.isText = true → CoreOf .string (.literal id [v])
  | truth (id : Ident) {v : Value} : v.isBool = true → CoreOf .boolean (.literal id [v])
  | array (id : Ident) (element : Schema) : CoreOf .array (.array id element)
  | tuple (id : Ident) (items : List Schema) : CoreOf .tuple (.tuple id items)
  | object (id : Ident) (fields : List (String × Schema)) : CoreOf .object (.object id fields)
  | record (id : Ident) (key val : Schema) : CoreOf .record (.record id key val)

/-- A node of the structural core. -/
def IsCore (s : Schema) : Prop := ∃ k, s.CoreOf k

/-- The second descriptor describes whatever a program can have that the first one describes. -/
def IncludesReal (I : Interpretation) (a b : Schema) : Prop :=
  ∀ x : Subject, x.Real → a.Admits I x → b.Admits I x

/-- A node of the core with parts as builders let them through. -/
def IsCoreNode (s : Schema) : Prop := s.IsCore ∧ s.PartsSound

variable {I : Interpretation} {a b : Schema} {x : Subject}

/-! ## Values of the core -/

theorem CoreOf.sort_eq {k : Kind} (apart : I.recordsApart = true) (h : a.CoreOf k)
    (parts : a.PartsSound) (hx : a.Admits I x) : k = .unknown ∨ x.sort = k := by
  cases h with
  | unknown => exact .inl rfl
  | string =>
    obtain ⟨mark, s, rfl⟩ := hx
    exact .inr rfl
  | number =>
    obtain ⟨n, rfl⟩ := hx
    exact .inr rfl
  | boolean =>
    obtain ⟨b, rfl⟩ := hx
    exact .inr rfl
  | text id text =>
    obtain ⟨w, hw, rfl⟩ := hx
    obtain rfl := List.mem_singleton.mp hw
    obtain ⟨mark, s, essence⟩ := (Value.isText_iff false (parts.2 w hw)).mp text
    rw [essence]
    exact .inr rfl
  | truth id truth =>
    obtain ⟨w, hw, rfl⟩ := hx
    obtain rfl := List.mem_singleton.mp hw
    obtain ⟨b, essence⟩ := (Value.isBool_iff false (parts.2 w hw)).mp truth
    rw [essence]
    exact .inr rfl
  | array =>
    obtain ⟨items, rfl, -⟩ := hx
    exact .inr rfl
  | tuple =>
    obtain ⟨items, rfl, -⟩ := hx
    exact .inr rfl
  | object =>
    obtain ⟨entries, rfl, -⟩ := hx
    exact .inr rfl
  | record =>
    obtain ⟨entries, rfl, -⟩ := hx
    rw [Interpretation.recordOf, if_pos apart]
    exact .inr rfl

/-- Text with no class of its own. -/
def textSubject (s : String) : Subject := .scalar (.text .plain s)

theorem real_textSubject (s : String) : (textSubject s).Real :=
  .scalar (.text s) ⟨rfl, trivial⟩

theorem exists_items {ss : List Schema} (h : ∀ s ∈ ss, ∃ x : Subject, x.Real ∧ s.Admits I x) :
    ∃ items : List Subject, (∀ x ∈ items, x.Real) ∧ List.Forall₂ (Admits I) ss items := by
  induction ss with
  | nil => exact ⟨[], nofun, .nil⟩
  | cons s rest ih =>
    obtain ⟨x, real, hx⟩ := h s List.mem_cons_self
    obtain ⟨items, reals, each⟩ := ih fun t ht => h t (List.mem_cons_of_mem s ht)
    exact ⟨x :: items, List.forall_mem_cons.mpr ⟨real, reals⟩, .cons hx each⟩

theorem exists_values {fields : List (String × Schema)}
    (h : ∀ f ∈ fields, ∃ x : Subject, x.Real ∧ f.2.Admits I x) :
    ∃ g : String × Schema → Subject, ∀ f ∈ fields, (g f).Real ∧ f.2.Admits I (g f) := by
  have values (f : String × Schema) : ∃ x : Subject, f ∈ fields → x.Real ∧ f.2.Admits I x := by
    by_cases hf : f ∈ fields
    · obtain ⟨x, hx⟩ := h f hf
      exact ⟨x, fun _ => hx⟩
    · exact ⟨.atom 0, fun there => absurd there hf⟩
  choose g hg using values
  exact ⟨g, hg⟩

/-- The entries with a value for every field. -/
def entriesOf (fields : List (String × Schema)) (g : String × Schema → Subject) :
    List (Subject × Subject) :=
  fields.map fun f => (textSubject f.1, g f)

theorem at?_entriesOf (fields : List (String × Schema)) (g : String × Schema → Subject)
    (name : String) :
    Subject.at? (entriesOf fields g) name = (fields.find? fun f => f.1 == name).map g := by
  rw [Subject.at?, entriesOf, List.find?_map, Option.map_map]
  rfl

theorem real_entriesOf {fields : List (String × Schema)} {g : String × Schema → Subject}
    (distinct : (fields.map Prod.fst).Nodup) (real : ∀ f ∈ fields, (g f).Real) :
    (Subject.map (entriesOf fields g)).Real := by
  refine .map ?_ ?_ ?_
  · have keys : (entriesOf fields g).map Prod.fst = (fields.map Prod.fst).map textSubject := by
      simp [entriesOf]
    rw [keys]
    refine distinct.map fun s t same => ?_
    cases same
    rfl
  · intro e he
    obtain ⟨f, hf, rfl⟩ := List.mem_map.mp he
    exact real_textSubject f.1
  · intro e he
    obtain ⟨f, hf, rfl⟩ := List.mem_map.mp he
    exact real f hf

/-- The field with a name is found in its place. -/
theorem find?_of_mem {fields : List (String × Schema)} {f : String × Schema}
    (distinct : (fields.map Prod.fst).Nodup) (hf : f ∈ fields) :
    (fields.find? fun g => g.1 == f.1) = some f := by
  have found : (fields.find? fun g => g.1 == f.1).isSome = true :=
    List.find?_isSome.mpr ⟨f, hf, beq_self_eq_true _⟩
  obtain ⟨g, hg⟩ := Option.isSome_iff_exists.mp found
  have name := List.find?_some hg
  rw [hg, List.inj_on_of_nodup_map distinct (List.mem_of_find?_eq_some hg) hf (beq_iff_eq.mp name)]

theorem admits_entriesOf {id : Ident} {fields : List (String × Schema)}
    {g : String × Schema → Subject} (distinct : (fields.map Prod.fst).Nodup)
    (each : ∀ f ∈ fields, f.2.Admits I (g f)) :
    (object id fields).Admits I (.map (entriesOf fields g)) := by
  refine admits_object.mpr ⟨_, rfl, ?_, fun f hf => ?_⟩
  · intro e he
    obtain ⟨f, hf, rfl⟩ := List.mem_map.mp he
    rfl
  · rw [AdmitsField, at?_entriesOf, find?_of_mem distinct hf]
    exact each f hf

/-- **Every core descriptor describes something.** -/
theorem exists_real (ha : Everywhere IsCoreNode a) : ∃ x : Subject, x.Real ∧ a.Admits I x := by
  induction ha with
  | @intro s here below ih =>
    obtain ⟨⟨k, core⟩, parts⟩ := here
    cases core with
    | string => exact ⟨textSubject "", real_textSubject "", .plain, "", rfl⟩
    | number => exact ⟨_, .scalar (.int 0) ⟨rfl, trivial⟩, _, rfl⟩
    | boolean => exact ⟨_, .scalar (.bool true) ⟨rfl, trivial⟩, _, rfl⟩
    | unknown => exact ⟨_, .scalar .null ⟨rfl, trivial⟩, trivial⟩
    | @text id v text =>
      have listed := List.mem_singleton_self v
      exact ⟨_, .scalar v (parts.2 v listed), v, listed, rfl⟩
    | @truth id v truth =>
      have listed := List.mem_singleton_self v
      exact ⟨_, .scalar v (parts.2 v listed), v, listed, rfl⟩
    -- An empty list and an empty record are there whatever the parts describe.
    | array => exact ⟨.list [], .list nofun, [], rfl, nofun⟩
    | tuple =>
      obtain ⟨items, reals, each⟩ := exists_items ih
      exact ⟨.tuple items, .tuple reals, admits_tuple.mpr ⟨items, rfl, each⟩⟩
    | object id fields =>
      obtain ⟨g, hg⟩ := exists_values (I := I) fun f hf => ih f.2 (List.mem_map_of_mem hf)
      exact ⟨.map (entriesOf fields g), real_entriesOf parts fun f hf => (hg f hf).1,
        admits_entriesOf parts fun f hf => (hg f hf).2⟩
    | record id key val =>
      refine ⟨I.recordOf [], ?_, [], rfl, nofun⟩
      unfold Interpretation.recordOf
      split
      · exact .record .nil nofun nofun
      · exact .map .nil nofun nofun

/-! ## Parts that are told apart -/

/-- Tuples of values tell whether the places include each other, if every place has a value. -/
theorem forall₂_includesReal {ss ts : List Schema}
    (inhabited : ∀ s ∈ ss, ∃ x : Subject, x.Real ∧ s.Admits I x)
    (h : ∀ items : List Subject, (∀ x ∈ items, x.Real) → List.Forall₂ (Admits I) ss items →
      List.Forall₂ (Admits I) ts items) : List.Forall₂ (IncludesReal I) ss ts := by
  induction ss generalizing ts with
  | nil =>
    cases h [] nofun .nil
    exact .nil
  | cons s rest ih =>
    obtain ⟨x, real, hx⟩ := inhabited s List.mem_cons_self
    have inhabited' : ∀ t ∈ rest, ∃ x : Subject, x.Real ∧ t.Admits I x :=
      fun t ht => inhabited t (List.mem_cons_of_mem s ht)
    obtain ⟨items, reals, each⟩ := exists_items inhabited'
    -- A value for each place but one completes any value for that place.
    cases h (x :: items) (List.forall_mem_cons.mpr ⟨real, reals⟩) (.cons hx each) with
    | cons _ _ =>
      refine .cons (fun y realY hy => ?_) (ih inhabited' fun others realOthers eachOther => ?_)
      · cases h (y :: items) (List.forall_mem_cons.mpr ⟨realY, reals⟩) (.cons hy each) with
        | cons there _ => exact there
      · have realAll := List.forall_mem_cons.mpr ⟨real, realOthers⟩
        cases h (x :: others) realAll (.cons hx eachOther) with
        | cons _ there => exact there

theorem IsCore.omittable (h : a.IsCore) : a.omittable = false := by
  obtain ⟨k, h⟩ := h
  cases h <;> rfl

theorem IsCore.present (h : a.IsCore) : a.present = a := by
  obtain ⟨k, h⟩ := h
  cases h <;> rfl

/-- Objects of values tell whether a field that must be there is included, if every field has a
value. -/
theorem exists_field {i j : Ident} {fields more : List (String × Schema)} {f : String × Schema}
    (distinct : (fields.map Prod.fst).Nodup)
    (inhabited : ∀ g ∈ fields, ∃ x : Subject, x.Real ∧ g.2.Admits I x)
    (h : IncludesReal I (object i fields) (object j more)) (hf : f ∈ more)
    (required : f.2.omittable = false) : ∃ s, (f.1, s) ∈ fields ∧ IncludesReal I s f.2 := by
  obtain ⟨value, hvalue⟩ := exists_values inhabited
  -- What the target says of the field, for any choice of values.
  have field (g : String × Schema → Subject) (hg : ∀ s ∈ fields, (g s).Real ∧ s.2.Admits I (g s)) :
      AdmitsField I f (entriesOf fields g) := by
    have all := h _ (real_entriesOf distinct fun s hs => (hg s hs).1)
      (admits_entriesOf distinct fun s hs => (hg s hs).2)
    obtain ⟨entries, same, -, holds⟩ := admits_object.mp all
    cases same
    exact holds f hf
  cases found : fields.find? fun s => s.1 == f.1 with
  | none =>
    have there := field value hvalue
    rw [AdmitsField, at?_entriesOf, found] at there
    exact absurd there (by simp [required])
  | some s =>
    have hs := List.mem_of_find?_eq_some found
    have name := List.find?_some found
    rw [beq_iff_eq] at name
    refine ⟨s.2, name ▸ hs, fun y real hy => ?_⟩
    -- The field takes the given value, and the others keep theirs.
    have there := field (fun g => if g.1 = f.1 then y else value g) fun g hg => by
      split
      · rename_i same
        rw [List.inj_on_of_nodup_map distinct hg hs (same.trans name.symm)]
        exact ⟨real, hy⟩
      · exact hvalue g hg
    rw [AdmitsField, at?_entriesOf, found] at there
    simpa [name] using there

/-! ## Pairs that include each other are accepted -/

/-- The sign of a zero is no matter of texts and truth values. -/
theorem essence_true_of_not_number {v : Value} (h : v.MayList)
    (sort : v.isText = true ∨ v.isBool = true) : v.essence true = v.essence false := by
  rw [Value.essence_false true]
  rcases sort with text | truth
  · obtain ⟨mark, s, essence⟩ := (Value.isText_iff true h).mp text
    rw [essence]
    rfl
  · obtain ⟨b, essence⟩ := (Value.isBool_iff true h).mp truth
    rw [essence]
    rfl

/-- A literal of one text or truth value, against another. -/
theorem fits_literal {i j : Ident} {v w : Value} (hv : v.MayList) (hw : w.MayList)
    (sortV : v.isText = true ∨ v.isBool = true)
    (sortW : w.isText = true ∨ w.isBool = true)
    (h : IncludesReal I (literal i [v]) (literal j [w])) :
    Fits (literal i [v]) (literal j [w]) := by
  obtain ⟨u, hu, same⟩ := h _ (.scalar v hv) ⟨v, List.mem_singleton_self v, rfl⟩
  obtain rfl := List.mem_singleton.mp hu
  injection same with essence
  have one : v.sameValue true u = true := by
    refine Value.sameValue_of_essence_eq hv hw ?_
    rw [essence_true_of_not_number hv sortV, essence_true_of_not_number hw sortW, essence]
  refine fits_of_accepts .literalSource rfl ⟨nofun, ?_⟩
  simp [literalFits, listed, Value.allAmong, one]

/-- A literal describes one value only. -/
theorem eq_of_admits_singleton {id : Ident} {v : Value} {y : Subject}
    (hx : (literal id [v]).Admits I x) (hy : (literal id [v]).Admits I y) : x = y := by
  obtain ⟨u, hu, rfl⟩ := hx
  obtain ⟨w, hw, rfl⟩ := hy
  rw [List.mem_singleton.mp hu, List.mem_singleton.mp hw]

theorem fits_of_texts (coreA : a.CoreOf .string) (coreB : b.CoreOf .string)
    (partsA : a.PartsSound) (partsB : b.PartsSound)
    (h : IncludesReal I a b) : Fits a b := by
  cases coreA with
  | string i =>
    cases coreB with
    | string j => exact fits_of_accepts .primitivePair rfl rfl
    | text j text =>
      -- Two different texts cannot both be the one that is listed.
      have first := h (textSubject "") (real_textSubject _) ⟨.plain, _, rfl⟩
      have second := h (textSubject "a") (real_textSubject _) ⟨.plain, _, rfl⟩
      have same := eq_of_admits_singleton first second
      simp [textSubject] at same
  | @text i v text =>
    cases coreB with
    | string j =>
      refine fits_of_accepts .literalSource rfl ⟨nofun, ?_⟩
      simp [literalFits, listed, Value.inPrimitive, Plain.kind, text]
    | @text j w text' =>
      exact fits_literal (partsA.2 v (List.mem_singleton_self v))
        (partsB.2 w (List.mem_singleton_self w)) (.inl text) (.inl text') h

theorem fits_of_truths (coreA : a.CoreOf .boolean) (coreB : b.CoreOf .boolean)
    (partsA : a.PartsSound) (partsB : b.PartsSound)
    (h : IncludesReal I a b) : Fits a b := by
  cases coreA with
  | boolean i =>
    cases coreB with
    | boolean j => exact fits_of_accepts .primitivePair rfl rfl
    | truth j truth =>
      have first := h _ (.scalar (.bool true) ⟨rfl, trivial⟩) ⟨true, rfl⟩
      have second := h _ (.scalar (.bool false) ⟨rfl, trivial⟩) ⟨false, rfl⟩
      cases eq_of_admits_singleton first second
  | @truth i v truth =>
    cases coreB with
    | boolean j =>
      refine fits_of_accepts .literalSource rfl ⟨nofun, ?_⟩
      simp [literalFits, listed, Value.inPrimitive, Plain.kind, truth]
    | @truth j w truth' =>
      exact fits_literal (partsA.2 v (List.mem_singleton_self v))
        (partsB.2 w (List.mem_singleton_self w)) (.inr truth) (.inr truth') h

section Containers

variable (inhabited : ∀ s ∈ a.children, ∃ x : Subject, x.Real ∧ s.Admits I x)
  (ih : ∀ s ∈ a.children, ∀ t ∈ b.children, IncludesReal I s t → Fits s t)

include ih in
theorem fits_of_arrays (coreA : a.CoreOf .array) (coreB : b.CoreOf .array)
    (h : IncludesReal I a b) : Fits a b := by
  cases coreA with
  | array i s =>
    cases coreB with
    | array j t =>
      refine fits_of_accepts .arrayPair rfl ?_
      refine ih s (List.mem_singleton_self s) t (List.mem_singleton_self t) fun y real hy => ?_
      obtain ⟨items, same, each⟩ :=
        h (.list [y]) (.list (by simpa using real)) ⟨[y], rfl, by simpa using hy⟩
      cases same
      exact each y (List.mem_singleton_self y)

include inhabited ih in
theorem fits_of_tuples (coreA : a.CoreOf .tuple) (coreB : b.CoreOf .tuple)
    (h : IncludesReal I a b) : Fits a b := by
  cases coreA with
  | tuple i ss =>
    cases coreB with
    | tuple j ts =>
      refine fits_of_accepts .tuplePair rfl ?_
      refine Rule.forall₂_imp_of_mem ih (forall₂_includesReal inhabited fun items reals each => ?_)
      have there := h (.tuple items) (.tuple reals) (admits_tuple.mpr ⟨items, rfl, each⟩)
      obtain ⟨items', same, each'⟩ := admits_tuple.mp there
      cases same
      exact each'

include inhabited ih in
theorem fits_of_records (recordsApart : I.recordsApart = true) (coreA : a.CoreOf .record)
    (coreB : b.CoreOf .record) (h : IncludesReal I a b) : Fits a b := by
  cases coreA with
  | record i key val =>
    cases coreB with
    | record j key' val' =>
      obtain ⟨k, realK, hk⟩ := inhabited key (by simp [children])
      obtain ⟨v, realV, hv⟩ := inhabited val (by simp [children])
      -- Records with a single entry tell keys and values apart.
      have entry {x y : Subject} (realX : x.Real) (realY : y.Real) (hx : key.Admits I x)
          (hy : val.Admits I y) : key'.Admits I x ∧ val'.Admits I y := by
        have real : (I.recordOf [(x, y)]).Real := by
          rw [Interpretation.recordOf, if_pos recordsApart]
          exact .record (by simp) (by simpa using realX) (by simpa using realY)
        obtain ⟨entries, same, each⟩ :=
          h (I.recordOf [(x, y)]) real ⟨[(x, y)], rfl, by simpa using ⟨hx, hy⟩⟩
        rw [Interpretation.recordOf, Interpretation.recordOf, if_pos recordsApart,
          if_pos recordsApart] at same
        cases same
        exact each (x, y) (List.mem_singleton_self _)
      refine fits_of_accepts .recordPair rfl ⟨?_, ?_⟩
      · exact ih key (by simp [children]) key' (by simp [children]) fun x real hx =>
          (entry real realV hx hv).1
      · exact ih val (by simp [children]) val' (by simp [children]) fun y real hy =>
          (entry realK real hk hy).2

include inhabited ih in
theorem fits_of_objects (coreA : a.CoreOf .object) (coreB : b.CoreOf .object)
    (distinct : a.PartsSound) (fieldsA : ∀ s ∈ a.children, s.IsCore)
    (fieldsB : ∀ t ∈ b.children, t.IsCore) (h : IncludesReal I a b) : Fits a b := by
  cases coreA with
  | object i fields =>
    cases coreB with
    | object j more =>
      refine fits_of_accepts .objectPair rfl fun f hf => ?_
      have coreF := fieldsB f.2 (List.mem_map_of_mem hf)
      obtain ⟨s, hs, below⟩ := exists_field distinct
        (fun g hg => inhabited g.2 (List.mem_map_of_mem hg)) h hf coreF.omittable
      have hs' : s ∈ (object i fields).children := List.mem_map_of_mem (f := Prod.snd) hs
      have coreS := fieldsA s hs'
      unfold Rule.FieldFits
      rw [lookup_of_mem distinct hs]
      refine ⟨.inr coreS.omittable, ?_⟩
      rw [coreS.present, coreF.present]
      exact ih s hs' f.2 (List.mem_map_of_mem hf) below

end Containers

/-- **A core descriptor that is included is accepted.** -/
theorem fits_of_includesReal (recordsApart : I.recordsApart = true) (ha : Everywhere IsCoreNode a)
    (hb : Everywhere IsCoreNode b) (h : IncludesReal I a b) : Fits a b := by
  induction ha generalizing b with
  | @intro a here below ih =>
    obtain ⟨x, real, hx⟩ := exists_real (I := I) (.intro here below)
    obtain ⟨⟨k, coreA⟩, partsA⟩ := here
    obtain ⟨⟨l, coreB⟩, partsB⟩ := hb.here
    have inhabited : ∀ s ∈ a.children, ∃ x : Subject, x.Real ∧ s.Admits I x :=
      fun s hs => exists_real (below s hs)
    have lower : ∀ s ∈ a.children, ∀ t ∈ b.children, IncludesReal I s t → Fits s t :=
      fun s hs t ht => ih s hs (hb.child ht)
    by_cases top : l = .unknown
    · subst top
      cases coreB
      exact fits_of_isTop rfl
    -- A value of the one is a value of the other, so that the two are of one sort.
    have sorts {y : Subject} (hy : y.Real) (hay : a.Admits I y) : y.sort = l :=
      (coreB.sort_eq recordsApart partsB (h y hy hay)).resolve_left top
    by_cases topA : k = .unknown
    · subst topA
      cases coreA
      cases sorts (.scalar .null ⟨rfl, trivial⟩) trivial
      cases coreB
    have same : l = k := by
      rw [← sorts real hx]
      exact (coreA.sort_eq recordsApart partsA hx).resolve_left topA
    subst same
    cases coreA with
    | unknown => exact absurd rfl topA
    | string i => exact fits_of_texts (.string i) coreB partsA partsB h
    | text i text => exact fits_of_texts (.text i text) coreB partsA partsB h
    | boolean i => exact fits_of_truths (.boolean i) coreB partsA partsB h
    | truth i truth => exact fits_of_truths (.truth i truth) coreB partsA partsB h
    | number i =>
      cases coreB
      exact fits_of_accepts .primitivePair rfl rfl
    | array i s => exact fits_of_arrays lower (.array i s) coreB h
    | tuple i ss => exact fits_of_tuples inhabited lower (.tuple i ss) coreB h
    | record i key val =>
      exact fits_of_records inhabited lower recordsApart (.record i key val) coreB h
    | object i fields =>
      exact fits_of_objects inhabited lower (.object i fields) coreB partsA
        (fun s hs => (below s hs).here.1) (fun t ht => (hb.child ht).here.1) h

/-! ## Core descriptors as sources and targets -/

/-- No field of the core may be left out, so nothing has to be declared. -/
theorem core_omitsOnly (h : ∀ c ∈ a.children, c.IsCore) : a.OmitsOnly fun _ => False := by
  cases a with
  | object id fields =>
    intro f hf omits
    rw [(h f.2 (List.mem_map_of_mem hf)).omittable] at omits
    cases omits
  | _ => exact trivial

theorem core_declares : a.Declares fun _ => False := by
  cases a with
  | object id fields => exact fun _ => False.elim
  | _ => exact trivial

/-- There are no unions in the core. -/
theorem IsCore.offersFlat (h : a.IsCore) : a.OffersFlat := by
  obtain ⟨k, h⟩ := h
  cases h <;> trivial

theorem IsCore.not_any (h : a.IsCore) : a.kind? ≠ some .any := by
  obtain ⟨k, h⟩ := h
  cases h <;> exact nofun

end Schema

namespace Policy

open Schema

variable {a b : Schema}

/-- **On the core, answers are exact.**  If the comparison is not given up for lack of room, it
answers, and it answers true exactly when the second descriptor describes every value of the first;
it makes no difference whether all values count or only those that a program can have.  There is
always room for trees that are not too high. -/
theorem conforms_iff_includes (stack : Stack) (deepest : Int) (trace : Bool) (I : Interpretation)
    (heap : Heap) (recordsApart : I.recordsApart = true) (ha : a.WellFormed)
    (hb : b.WellFormed) (keptA : a.LivesIn heap) (keptB : b.LivesIn heap)
    (coreA : Everywhere IsCore a) (coreB : Everywhere IsCore b)
    (deep : (a.height + b.height : Int) ≤ deepest) :
    (4 * (a.height + b.height + 1) + stack.most ≤ stack.whole →
        ¬ (upTo stack deepest trace).Overflows a.value b.value) ∧
      (¬ (upTo stack deepest trace).Overflows a.value b.value →
        ∃ v, ((upTo stack deepest trace).conforms a.value b.value).outcome = .ok v ∧
          (v = true ↔ Includes I a b) ∧ (v = true ↔ IncludesReal I a b)) := by
  refine ⟨not_overflows_of_flat_bound ha (coreA.mono fun _ h => h.offersFlat)
    (coreB.mono fun _ h => h.offersFlat), fun held => ?_⟩
  obtain ⟨v, answer, fits⟩ := conforms_tells deep held
  have source : Everywhere (IsSource heap fun _ => False) a :=
    ((ha.and keptA).and coreA).mono fun _ h =>
      ⟨h.1.2, h.1.1.2.listsIn h.1.2, h.2.not_any, core_declares⟩
  have target : Everywhere (IsTarget heap fun _ => False) b :=
    ((hb.and keptB).and coreB.withChildren).mono fun _ h =>
      ⟨h.1.2, h.1.1.2.listsIn h.1.2, core_omitsOnly h.2.2⟩
  have sound : v = true → Includes I a b := fun yes => (fits.mp yes).includes source target
  have complete : IncludesReal I a b → v = true := by
    intro included
    refine fits.mpr (fits_of_includesReal recordsApart ?_ ?_ included)
    · exact (coreA.and ha).mono fun _ h => ⟨h.1, h.2.2⟩
    · exact (coreB.and hb).mono fun _ h => ⟨h.1, h.2.2⟩
  have weaken (included : Includes I a b) : IncludesReal I a b := fun x _ => included x
  exact ⟨v, answer, ⟨sound, fun h => complete (weaken h)⟩, fun yes => weaken (sound yes), complete⟩

/-- Under a name, a pair is told apart by its second place. -/
theorem pair_not_included :
    let x : Schema := .literal (.made 0) [.text "x"]
    let truth : Schema := .plain (.made 1) .boolean
    let pair : Schema := .tuple (.made 2) [x, truth]
    let a : Schema := .object (.made 3) [("k", pair)]
    let text : Schema := .plain (.made 4) .string
    let yes : Schema := .literal (.made 5) [.bool true]
    let pair' : Schema := .tuple (.made 6) [text, yes]
    let b : Schema := .object (.made 7) [("k", pair')]
    ((upTo .standard 4 false).conforms a.value b.value).outcome = .ok false ∧
      ∀ I : Interpretation, I.recordsApart = true → ¬ IncludesReal I a b := by
  intro x truth pair a text yes pair' b
  refine ⟨rfl, fun I recordsApart included => ?_⟩
  have exactly := conforms_iff_includes (a := a) (b := b) .standard 4 false I
    (.ofNodes [x, truth, pair, a, text, yes, pair', b]) recordsApart ?_ ?_ ?_ ?_ ?_ ?_ (by decide)
  · obtain ⟨v, answer, -, real⟩ := exactly.2 (exactly.1 (by decide))
    have no : ((upTo .standard 4 false).conforms a.value b.value).outcome = .ok false := rfl
    cases answer.symm.trans no
    cases real.mpr included
  · simp [WellFormed, a, x, truth, pair, IsSound, PartsSound, Schema.id, Value.MayList,
      Value.isLiteral, Value.datum, Value.HasClass]
  · simp [WellFormed, b, text, yes, pair', IsSound, PartsSound, Schema.id, Value.MayList,
      Value.isLiteral, Value.datum, Value.HasClass]
  · simp [LivesIn, a, x, truth, pair, Heap.Keeps, Heap.KeepsClass, Schema.id, listed, Heap.ofNodes]
  · simp [LivesIn, a, x, truth, pair, b, text, yes, pair', Heap.Keeps, Heap.KeepsClass, Schema.id,
      listed, Heap.ofNodes]
  · simp only [a, x, truth, pair, everywhere_object, everywhere_tuple, everywhere_literal,
      everywhere_plain, List.forall_mem_cons, List.not_mem_nil, IsEmpty.forall_iff, implies_true,
      and_true]
    exact ⟨⟨_, .object _ _⟩, ⟨_, .tuple _ _⟩, ⟨_, .text _ rfl⟩, ⟨_, .boolean _⟩⟩
  · simp only [b, text, yes, pair', everywhere_object, everywhere_tuple, everywhere_literal,
      everywhere_plain, List.forall_mem_cons, List.not_mem_nil, IsEmpty.forall_iff, implies_true,
      and_true]
    exact ⟨⟨_, .object _ _⟩, ⟨_, .tuple _ _⟩, ⟨_, .string _⟩, ⟨_, .truth _ rfl⟩⟩

end Policy

/-! ## Comparisons that are given up -/

namespace Schema

/-- The nodes of two families of tuples, with even and with odd identities. -/
def heapOfTuples : Heap where
  node n := tuples 2 (n % 2) (n / 2)
  cls _ := .base .object

theorem node_heapOfTuples {first : Nat} (h : first < 2) (n : Nat) :
    heapOfTuples.node (2 * n + first) = tuples 2 first n := by
  show tuples 2 ((2 * n + first) % 2) ((2 * n + first) / 2) = _
  rw [show (2 * n + first) % 2 = first by omega, show (2 * n + first) / 2 = n by omega]

theorem tuples_isCore (stride first n : Nat) : Everywhere IsCore (tuples stride first n) := by
  refine everywhere_tower ?_ (fun n s _ hs => ?_) n
  · exact everywhere_plain.mpr ⟨_, .string _⟩
  · exact everywhere_tuple.mpr ⟨⟨_, .tuple _ _⟩, List.forall_mem_singleton.mpr hs⟩

theorem tuples_include (I : Interpretation) (n : Nat) :
    Includes I (tuples 2 0 n) (tuples 2 1 n) := by
  induction n with
  | zero => exact fun _ hx => hx
  | succ n ih =>
    intro x hx
    obtain ⟨items, rfl, each⟩ := admits_tuple.mp hx
    exact admits_tuple.mpr ⟨items, rfl, Rule.forall₂_admits (.cons ih .nil) each⟩

end Schema

namespace Policy

open Schema

/-- **A comparison that goes down too far.**  Two core descriptors describe the same values, and no
depth limit stands in the way; yet the answer is no, because two thousand pairs cannot be compared
inside each other. -/
theorem deep_tuples_given_up :
    (tuples 2 0 2000).WellFormed ∧ (tuples 2 1 2000).WellFormed ∧
      (tuples 2 0 2000).LivesIn heapOfTuples ∧ (tuples 2 1 2000).LivesIn heapOfTuples ∧
      Everywhere IsCore (tuples 2 0 2000) ∧ Everywhere IsCore (tuples 2 1 2000) ∧
      ((tuples 2 0 2000).height + (tuples 2 1 2000).height : Int) ≤ 100000 ∧
      (∀ I, Includes I (tuples 2 0 2000) (tuples 2 1 2000)) ∧
      ((upTo .standard 100000 false).conforms (tuples 2 0 2000).value (tuples 2 1 2000).value).outcome =
        .ok false := by
  refine ⟨tuples_wellFormed 2 0 _, tuples_wellFormed 2 1 _,
    tuples_livesIn (node_heapOfTuples (by decide)) _,
    tuples_livesIn (node_heapOfTuples (by decide)) _,
    tuples_isCore 2 0 _, tuples_isCore 2 1 _, ?_, ?_, ?_⟩
  · rw [tuples_height, tuples_height]
    decide
  · exact fun I => tuples_include I _
  · exact conforms_outcome_of_overflows
      (overflows_of_descends (tuples_descend 2000) (by decide) (by decide))

end Policy

end Conformance
