/-
# Conformance.Proofs.Contents — what values hold, and what is read off them.

A value holds others: items, keys, members, attributes, parts.  To go through a value, to ask it for
a property or to look something up in it is to have one of these, or nothing, a text, a tuple or a
named constant made of them.  So a property that goes over to what a value holds, and to these few,
is not lost by reading (`Value.IsLenient`).
-/
import Conformance.Proofs.Height
import Conformance.Proofs.Outcome
import Conformance.Value.Derive

namespace Conformance

namespace Value

/-! ## What a value holds -/

/-- The values that a value holds. -/
def contents : Value → List Value
  | .list _ items | .tuple _ items => items
  | .dict _ entries | .frozen entries => entries.map Prod.fst ++ entries.map Prod.snd
  | .classTest _ target => [target]
  | .enumeration _ _ members => members.map Prod.snd
  | .member _ _ _ value => [value]
  | .lookalike _ attributes => attributes.map Prod.snd
  | .node _ _ parts => parts.map Prod.snd
  | _ => []

/-- Keys and values, one after the other. -/
theorem forall_mem_keys_append_values {P : Value → Prop} {es : Entries} :
    (∀ v ∈ es.map Prod.fst ++ es.map Prod.snd, P v) ↔ ∀ e ∈ es, P e.1 ∧ P e.2 := by
  rw [List.forall_mem_append, List.forall_mem_map, List.forall_mem_map]
  exact forall₂_and.symm

/-- **`IsLenient P`** — what a value with the property holds has it too; nothing and texts have it,
and so have tuples and named constants if what they hold has it. -/
structure IsLenient (P : Value → Prop) : Prop where
  contents {v : Value} : P v → ∀ w ∈ v.contents, P w
  null : P .null
  text (s : String) : P (.text s)
  tuple (id : Ident) {items : List Value} : (∀ v ∈ items, P v) → P (.tuple id items)
  member (owner : Ident) (enumName name : String) {value : Value} :
    P value → P (.member owner enumName name value)

/-! ## Reading -/

namespace IsLenient

variable {P : Value → Prop} (lenient : IsLenient P) {v w : Value} {items : List Value}
  {es : Entries}
include lenient

theorem headD (h : ∀ v ∈ items, P v) : P (items.headD .null) := by
  cases items with
  | nil => exact lenient.null
  | cons v rest => exact h v List.mem_cons_self

theorem entries (hv : P v) (h : v.entries? = some es) : ∀ e ∈ es, P e.1 ∧ P e.2 := by
  cases v with
  | dict id es =>
    cases h
    exact forall_mem_keys_append_values.mp (lenient.contents hv)
  | frozen es =>
    cases h
    exact forall_mem_keys_append_values.mp (lenient.contents hv)
  | _ => cases h

theorem stored {part : Part} (hv : P v) (h : v.stored? part = some w) : P w := by
  cases v with
  | node id model parts =>
    exact lenient.contents hv w (List.mem_map_of_mem (mem_of_lookup h))
  | lookalike id attributes =>
    exact lenient.contents hv w (List.mem_map_of_mem (mem_of_lookup h))
  | _ => cases h

theorem elements (hv : P v) (h : v.elements? = some items) : ∀ w ∈ items, P w := by
  cases v with
  | text s =>
    cases h
    exact List.forall_mem_map.mpr fun c _ => lenient.text _
  | list id items =>
    cases h
    exact lenient.contents hv
  | tuple id items =>
    cases h
    exact lenient.contents hv
  | dict id entries =>
    cases h
    exact fun w hw => lenient.contents hv w (List.mem_append_left _ hw)
  | frozen entries =>
    cases h
    exact fun w hw => lenient.contents hv w (List.mem_append_left _ hw)
  | enumeration id name members =>
    cases h
    refine List.forall_mem_map.mpr fun m hm => lenient.member id name m.1 ?_
    exact lenient.contents hv _ (List.mem_map_of_mem hm)
  | node id model parts =>
    cases h
    refine List.forall_mem_map.mpr fun p hp => lenient.tuple .transient ?_
    refine List.forall_mem_cons.mpr ⟨lenient.text _, List.forall_mem_singleton.mpr ?_⟩
    exact lenient.contents hv _ (List.mem_map_of_mem hp)
  | object id c =>
    -- Of the data that an instance holds only a text can be gone through, and it is empty.
    simp only [elements?, datum] at h
    cases layout : c.layout <;> rw [layout] at h <;> cases h
    exact List.forall_mem_nil _
  | _ => cases h

theorem gather (hv : P v) : Gives v.gather fun items => ∀ w ∈ items, P w := by
  intro items h
  unfold Value.gather at h
  split at h
  case h_1 found =>
    cases h
    exact lenient.elements hv found
  case h_2 => cases h

theorem nameOrValue {name word : String} (hv : P v) (h : nameOrValue name v word = some w) :
    P w := by
  unfold Value.nameOrValue at h
  split at h
  · cases h
    exact lenient.text name
  · split at h <;> cases h
    exact hv

theorem property {word : String} (hv : P v) (h : v.property? word = some w) : P w := by
  cases v with
  | node id model parts =>
    obtain ⟨p, found, rfl⟩ := Option.map_eq_some_iff.mp h
    exact lenient.contents hv _ (List.mem_map_of_mem (List.mem_of_find?_eq_some found))
  | lookalike id attributes =>
    exact lenient.contents hv w (List.mem_map_of_mem (mem_of_lookup h))
  | kind k => exact lenient.nameOrValue (lenient.text _) h
  | member owner enumName name value =>
    exact lenient.nameOrValue (lenient.contents hv value List.mem_cons_self) h
  | enumeration id name members =>
    simp only [property?] at h
    split at h
    · cases h
      exact lenient.text name
    · obtain ⟨m, found, rfl⟩ := Option.map_eq_some_iff.mp h
      refine lenient.member id name m.1 (lenient.contents hv _ ?_)
      exact List.mem_map_of_mem (List.mem_of_find?_eq_some found)
  | cls c =>
    simp only [property?] at h
    split at h <;> cases h
    exact lenient.text _
  | _ => cases h

theorem findConstant {id : Ident} {name : String} {members : List (String × Value)}
    (hm : ∀ m ∈ members, P m.2) (hv : P v) : Gives (findConstant id name members v) P := by
  unfold Value.findConstant
  split
  case h_1 found h =>
    refine .ok ?_
    unfold constant? at h
    split at h
    · cases h
      exact hv
    · obtain ⟨m, hmem, rfl⟩ := Option.map_eq_some_iff.mp h
      exact lenient.member id name m.1 (hm m (List.mem_of_find?_eq_some hmem))
  case h_2 => split <;> exact .error

/-! ### Sequences, mappings and what is to be called -/

theorem valuesOf (hv : P v) : Gives (Descriptor.valuesOf v) fun ws => ∀ w ∈ ws, P w := by
  unfold Descriptor.valuesOf
  split
  · exact .ok (List.forall_mem_singleton.mpr hv)
  · exact lenient.gather hv

theorem membersOf (hv : P v) : Gives (Descriptor.membersOf v) fun ws => ∀ w ∈ ws, P w := by
  unfold Descriptor.membersOf
  split
  · exact .ok (lenient.contents hv)
  · exact lenient.valuesOf hv

theorem tupleElements (hv : P v) (h : Descriptor.tupleElements? v = some items) :
    ∀ w ∈ items, P w := by
  unfold Descriptor.tupleElements? at h
  split at h
  · cases h
  · exact lenient.elements hv h

theorem pairOf (index : Nat) (hv : P v) :
    Gives (Descriptor.pairOf index v) fun e => P e.1 ∧ P e.2 := by
  unfold Descriptor.pairOf
  split
  · exact .error
  case h_2 key value found =>
    split
    · exact .error
    · have inside := lenient.elements hv found
      exact .ok ⟨inside key (by simp), inside value (by simp)⟩
  · exact .error

theorem entriesOfPairs {known : Entries} (hk : ∀ e ∈ known, P e.1 ∧ P e.2)
    (h : ∀ v ∈ items, P v) (index : Nat) :
    Gives (Descriptor.entriesOfPairs known index items) fun es => ∀ e ∈ es, P e.1 ∧ P e.2 := by
  induction items generalizing known index with
  | nil => exact .ok hk
  | cons v rest ih =>
    obtain ⟨hv, hrest⟩ := List.forall_mem_cons.mp h
    refine (lenient.pairOf index hv).bind fun e he => ?_
    exact ih (Value.forall_put hk he.1 he.2) hrest (index + 1)

theorem entriesOf (hv : P v) :
    Gives (Descriptor.entriesOf v) fun es => ∀ e ∈ es, P e.1 ∧ P e.2 := by
  unfold Descriptor.entriesOf
  split
  case h_1 entries found => exact .ok (lenient.entries hv found)
  case h_2 =>
    refine (lenient.gather hv).mapError.bind fun items h => ?_
    exact lenient.entriesOfPairs (List.forall_mem_nil _) h 0

theorem shapeFrom (hv : P v) :
    Gives (Builder.shapeFrom v) fun es => ∀ e ∈ es, P e.1 ∧ P e.2 := by
  unfold Builder.shapeFrom
  split
  · exact lenient.entriesOf hv
  · exact .ok (List.forall_mem_nil _)

end IsLenient

end Value

/-- What is to be called has a property. -/
def Callee.Holds (P : Value → Prop) : Callee → Prop
  | .ofNode _ v | .other v => P v
  | .listExtension => True

theorem Value.IsLenient.find {P : Value → Prop} (lenient : IsLenient P) {self : Value}
    (name : String) (h : P self) : Gives (Callee.find name self) (Callee.Holds P) := by
  unfold Callee.find
  split
  · exact .ok h
  · split
    · exact .ok trivial
    · split
      case h_1 found => exact .ok (lenient.property h found)
      case h_2 => exact .error

/-! ## Classes of constants -/

namespace Enumeration

section Members

variable {P : Value → Prop}

theorem declare_gives {d : Declared} {value : Value} (enumName name : String)
    (hd : ∀ m ∈ d.constants, P m.2) (hv : P value) :
    Gives (d.declare enumName name value) fun d' => ∀ m ∈ d'.constants, P m.2 := by
  have added : ∀ m ∈ (d.addConstant name value).constants, P m.2 :=
    List.forall_mem_append.mpr ⟨hd, List.forall_mem_singleton.mpr hv⟩
  unfold Declared.declare
  split
  · exact .ok hd
  split
  · split
    · exact .ok hd
    · exact .error
  split
  · exact .error
  split
  · exact .ok hd
  split
  · exact .error
  · exact .ok added

theorem forall_withoutAliases {constants known : Arguments} (hk : ∀ m ∈ known, P m.2)
    (h : ∀ m ∈ constants, P m.2) :
    ∀ m ∈ constants.foldl (fun ms m => if isKnown ms m.2 then ms else ms ++ [m]) known, P m.2 := by
  induction constants generalizing known with
  | nil => exact hk
  | cons c rest ih =>
    obtain ⟨hc, hrest⟩ := List.forall_mem_cons.mp h
    rw [List.foldl_cons]
    split
    · exact ih hk hrest
    · exact ih (List.forall_mem_append.mpr ⟨hk, List.forall_mem_singleton.mpr hc⟩) hrest

theorem declareAll_gives {named : Arguments} (enumName : String) (h : ∀ m ∈ named, P m.2)
    {d : Declared} (hd : ∀ m ∈ d.constants, P m.2) :
    Gives (named.foldlM (fun d m => d.declare enumName m.1 m.2) d)
      fun d' => ∀ m ∈ d'.constants, P m.2 := by
  induction named generalizing d with
  | nil => exact .ok hd
  | cons m rest ih =>
    obtain ⟨hm, hrest⟩ := List.forall_mem_cons.mp h
    rw [List.foldlM_cons]
    exact (declare_gives enumName m.1 hd hm).bind fun d' hd' => ih hrest hd'

/-- The constants of a class are among the values that were named. -/
theorem members_gives {named : Arguments} (enumName : String) (h : ∀ m ∈ named, P m.2) :
    Gives (members enumName named) fun ms => ∀ m ∈ ms, P m.2 := by
  refine (declareAll_gives enumName h (List.forall_mem_nil _)).bind fun d hd => ?_
  dsimp only
  split
  · exact .ok (forall_withoutAliases (List.forall_mem_nil _) hd)
  · exact .error

end Members

end Enumeration

end Conformance
