import Mathlib
import Faasten.Message

/-!
# Labels on the wire

A label travels as nested lists, and is a set of sets. `ComponentKind.Same` relates the messages that
differ only in the order and the repetition of clauses and of principals. `into_eq_iff` says that these
are the messages that decode to the same component: decoding forgets the order and the repetitions, and
nothing else.
-/

namespace Faasten

open Std

namespace Pb

/-- The clauses have the same principals, up to order and repetition. -/
def SameClause (c c' : List (List String)) : Prop := ∀ p, p ∈ c ↔ p ∈ c'

/-- Every clause of the one is, up to order and repetition, a clause of the other. -/
def Covered (cs cs' : List (List (List String))) : Prop := ∀ c ∈ cs, ∃ c' ∈ cs', SameClause c c'

/-- The components differ only in the order and the repetition of clauses and principals. -/
def ComponentKind.Same : ComponentKind → ComponentKind → Prop
  | .dcFalse, .dcFalse => True
  | .clauses cs, .clauses cs' => Covered cs cs' ∧ Covered cs' cs
  | _, _ => False

theorem SameClause.symm {c c' : List (List String)} (h : SameClause c c') : SameClause c' c :=
  fun p => (h p).symm

/-- The component with these contents. -/
def ComponentKind.message (k : ComponentKind) : Pb.Component := ⟨some k⟩

/-- The contents of the message for a component. -/
def ComponentKind.ofComponent : Faasten.Component → ComponentKind
  | .dcFalse => .dcFalse
  | .dcFormula cs => .clauses (cs.toList.map fun c => c.principals.toList)

theorem message_ofComponent (c : Faasten.Component) :
    (ComponentKind.ofComponent c).message = .ofComponent c := by
  cases c <;> rfl

/-- A label with both of its components. -/
def labelMessage (secrecy integrity : ComponentKind) : Pb.Buckle :=
  ⟨some secrecy.message, some integrity.message⟩

/-! ### Decoding -/

theorem ofList_eq_iff {α : Type} [Ord α] [TransOrd α] [LawfulEqOrd α] [DecidableEq α]
    {l l' : List α} :
    ExtTreeSet.ofList l compare = ExtTreeSet.ofList l' compare ↔ ∀ x, x ∈ l ↔ x ∈ l' := by
  have mem : ∀ (l : List α) x, x ∈ ExtTreeSet.ofList l compare ↔ x ∈ l := fun l x => by
    rw [ExtTreeSet.mem_ofList, List.contains_iff_mem]
  constructor
  · intro h x
    rw [← mem l, ← mem l', h]
  · intro h
    refine ExtTreeSet.ext_mem fun x => ?_
    rw [mem l, mem l']
    exact h x

theorem newFromVec_eq_iff {c c' : List (List String)} :
    Clause.newFromVec c = Clause.newFromVec c' ↔ SameClause c c' := by
  unfold Clause.newFromVec
  rw [Clause.mk.injEq]
  exact ofList_eq_iff

theorem mem_map_newFromVec {c : List (List String)} {cs : List (List (List String))} :
    Clause.newFromVec c ∈ cs.map Clause.newFromVec ↔ ∃ c' ∈ cs, SameClause c c' := by
  rw [List.mem_map]
  constructor
  · rintro ⟨c', hc', heq⟩
    exact ⟨c', hc', (newFromVec_eq_iff.1 heq).symm⟩
  · rintro ⟨c', hc', hsame⟩
    exact ⟨c', hc', newFromVec_eq_iff.2 hsame.symm⟩

theorem formula_eq_iff {cs cs' : List (List (List String))} :
    Faasten.Component.formula (cs.map .newFromVec) = .formula (cs'.map .newFromVec) ↔
      Covered cs cs' ∧ Covered cs' cs := by
  unfold Faasten.Component.formula
  rw [Faasten.Component.dcFormula.injEq, ofList_eq_iff]
  constructor
  · intro h
    exact ⟨fun c hc => mem_map_newFromVec.1 ((h _).1 (List.mem_map_of_mem hc)),
      fun c hc => mem_map_newFromVec.1 ((h _).2 (List.mem_map_of_mem hc))⟩
  · rintro ⟨h, h'⟩ x
    constructor <;> intro hx
    · obtain ⟨c, hc, rfl⟩ := List.mem_map.1 hx
      exact mem_map_newFromVec.2 (h c hc)
    · obtain ⟨c, hc, rfl⟩ := List.mem_map.1 hx
      exact mem_map_newFromVec.2 (h' c hc)

/-- Two components decode to the same one if and only if they differ only in the order and the
repetition of clauses and principals. -/
theorem into_eq_iff {k k' : ComponentKind} : k.message.into = k'.message.into ↔ k.Same k' := by
  cases k with
  | dcFalse =>
    cases k' with
    | dcFalse => exact iff_of_true rfl trivial
    | clauses cs' => exact iff_of_false nofun id
  | clauses cs =>
    cases k' with
    | dcFalse => exact iff_of_false nofun id
    | clauses cs' => exact (Option.some_inj).trans formula_eq_iff

/-- A component with its field present decodes. -/
theorem into_message (k : ComponentKind) : ∃ v, k.message.into = some v := ⟨_, rfl⟩

/-- Decoding and encoding gives the same component, up to order and repetition. -/
theorem same_ofComponent {k : ComponentKind} {v : Faasten.Component} (h : k.message.into = some v) :
    k.Same (.ofComponent v) :=
  into_eq_iff.1 (by rw [h, message_ofComponent, into_ofComponent])

theorem into_labelMessage {s i : ComponentKind} {v v' : Faasten.Component}
    (hs : s.message.into = some v) (hi : i.message.into = some v') :
    (labelMessage s i).into = some ⟨v, v'⟩ := by
  unfold labelMessage Buckle.into
  simp [hs, hi]

theorem into_labelMessage_eq_iff {s i s' i' : ComponentKind} :
    (labelMessage s i).into = (labelMessage s' i').into ↔ s.Same s' ∧ i.Same i' := by
  obtain ⟨v, hv⟩ := into_message s
  obtain ⟨u, hu⟩ := into_message i
  obtain ⟨v', hv'⟩ := into_message s'
  obtain ⟨u', hu'⟩ := into_message i'
  rw [into_labelMessage hv hu, into_labelMessage hv' hu', Option.some_inj, Faasten.Buckle.mk.injEq,
    ← into_eq_iff, ← into_eq_iff, hv, hv', hu, hu', Option.some_inj, Option.some_inj]

end Pb

/-- **Labels survive the wire.** A component or a label that is encoded decodes to itself. A message with
all its fields decodes, to the same value as another one if and only if the two differ only in the order
and the repetition of clauses and principals. Encoding what it decodes to gives such a message, which
decodes to the same value. -/
theorem labels_survive_wire :
    (∀ c, (Pb.Component.ofComponent c).into = some c) ∧
    (∀ b, (Pb.Buckle.ofBuckle b).into = some b) ∧
    (∀ k k' : Pb.ComponentKind, k.message.into = k'.message.into ↔ k.Same k') ∧
    (∀ s i s' i' : Pb.ComponentKind,
      (Pb.labelMessage s i).into = (Pb.labelMessage s' i').into ↔ s.Same s' ∧ i.Same i') ∧
    (∀ k : Pb.ComponentKind, ∃ c, k.message.into = some c ∧
      Pb.Component.ofComponent c = (Pb.ComponentKind.ofComponent c).message ∧
      k.Same (.ofComponent c) ∧ (Pb.Component.ofComponent c).into = some c) ∧
    ∀ s i : Pb.ComponentKind, ∃ b, (Pb.labelMessage s i).into = some b ∧
      Pb.Buckle.ofBuckle b = Pb.labelMessage (.ofComponent b.secrecy) (.ofComponent b.integrity) ∧
      s.Same (.ofComponent b.secrecy) ∧ i.Same (.ofComponent b.integrity) ∧
      (Pb.Buckle.ofBuckle b).into = some b := by
  refine ⟨Pb.into_ofComponent, Pb.into_ofBuckle, fun _ _ => Pb.into_eq_iff,
    fun _ _ _ _ => Pb.into_labelMessage_eq_iff, fun k => ?_, fun s i => ?_⟩
  · obtain ⟨c, hc⟩ := Pb.into_message k
    exact ⟨c, hc, (Pb.message_ofComponent c).symm, Pb.same_ofComponent hc, Pb.into_ofComponent c⟩
  · obtain ⟨v, hv⟩ := Pb.into_message s
    obtain ⟨u, hu⟩ := Pb.into_message i
    refine ⟨⟨v, u⟩, Pb.into_labelMessage hv hu, ?_, Pb.same_ofComponent hv, Pb.same_ofComponent hu,
      Pb.into_ofBuckle _⟩
    unfold Pb.Buckle.ofBuckle Pb.labelMessage
    rw [Pb.message_ofComponent, Pb.message_ofComponent]

end Faasten
