import Mathlib
import Faasten.Flow.LabelSystem

/-!
# Buckle labels

The labels of the monitor come from the crate `labeled`, which is not part of the repository. Its
data are used openly (`syscalls.rs` takes a component apart into clauses and token lists): a
component is `DCFalse` or a set of clauses, read as a conjunction; a clause is a set of principals,
read as a disjunction; a principal is a list of tokens; a label has a secrecy and an integrity
component.

The crate's operations are the fields of `LabelCrate`, over which the development is generic.

* `LawfulCrate`: the flow order, its join, the order relaxed by a privilege, `downgrade`;
* `LawfulConj`: implication between components and conjunction;
* `LawfulFormula`: how implication and conjunction treat the clauses of a formula;
* `LawfulDowngrade`, `LawfulJoin`: what `downgrade` and the join are for whoever holds a privilege.

A statement names the laws it needs.
-/

namespace Faasten

open Std

/-- A principal, as the list of its tokens: `princeton.edu/alice` is `["princeton.edu", "alice"]`. -/
abbrev Principal := List String

/-- A disjunction of principals. -/
structure Clause where
  principals : ExtTreeSet Principal compare
  deriving DecidableEq

/-- Clauses are ordered as the `BTreeSet`s they wrap: lexicographically. -/
instance : Ord Clause := ⟨fun a b => compare a.principals.toList b.principals.toList⟩

theorem Clause.compare_def (a b : Clause) :
    compare a b = compare a.principals.toList b.principals.toList := rfl

instance : TransOrd Clause where
  eq_swap {a b} := @OrientedCmp.eq_swap (List Principal) compare _ a.principals.toList b.principals.toList
  isLE_trans {a b c} := @TransCmp.isLE_trans (List Principal) compare _ a.principals.toList
    b.principals.toList c.principals.toList

instance : LawfulEqOrd Clause where
  compare_self {a} := @ReflCmp.compare_self (List Principal) compare _ a.principals.toList
  eq_of_compare {a b} h := by
    have hl : a.principals.toList = b.principals.toList := LawfulEqCmp.eq_of_compare h
    cases a; cases b
    simpa using ExtTreeSet.toList_inj.1 hl

/-- A conjunction of clauses, or falsity. -/
inductive Component
  | dcFalse
  | dcFormula (clauses : ExtTreeSet Clause compare)
  deriving DecidableEq

/-- A label: who may learn the data, and who vouches for it. -/
structure Buckle where
  secrecy : Component
  integrity : Component
  deriving DecidableEq

/-- The clause `p₁ | p₂ | …`. -/
def Clause.newFromVec (ps : List Principal) : Clause := ⟨.ofList ps⟩

/-- The component `c₁ & c₂ & …`. -/
def Component.formula (cs : List Clause) : Component := .dcFormula (.ofList cs)

/-- The empty conjunction. -/
def Component.dcTrue : Component := .dcFormula ∅

/-- The component of a single principal. -/
def Component.single (p : Principal) : Component := .formula [.newFromVec [p]]

/-- The operations of the crate. `publicLabel` is `Buckle::public()`, `and` is `&` on components,
`cmp` is the order by which `BTreeMap<Buckle, _>` sorts its keys. -/
class LabelCrate where
  implies : Component → Component → Bool
  and : Component → Component → Component
  publicLabel : Buckle
  lub : Buckle → Buckle → Buckle
  canFlowTo : Buckle → Buckle → Bool
  canFlowToWithPrivilege : Buckle → Buckle → Component → Bool
  downgrade : Buckle → Component → Buckle
  parse : String → Option Buckle
  cmp : Buckle → Buckle → Ordering
  transCmp : TransCmp cmp
  lawfulEqCmp : LawfulEqCmp cmp

attribute [instance] LabelCrate.transCmp LabelCrate.lawfulEqCmp

export LabelCrate (implies publicLabel lub canFlowTo canFlowToWithPrivilege downgrade)

/-- The laws of flows: a preorder with `lub` as a join; with a privilege, a transitive relation
that contains the preorder, grows with the privilege, and is the preorder itself for the empty
privilege; `downgrade` lowers a label no further than the privilege allows. -/
class LawfulCrate [LabelCrate] : Prop where
  flow_refl : ∀ a, canFlowTo a a
  flow_trans : ∀ {a b c}, canFlowTo a b → canFlowTo b c → canFlowTo a c
  flow_lub_left : ∀ a b, canFlowTo a (lub a b)
  flow_lub_right : ∀ a b, canFlowTo b (lub a b)
  lub_flow : ∀ {a b c}, canFlowTo a c → canFlowTo b c → canFlowTo (lub a b) c
  priv_of_flow : ∀ {a b p}, canFlowTo a b → canFlowToWithPrivilege a b p
  priv_trans : ∀ {a b c p}, canFlowToWithPrivilege a b p → canFlowToWithPrivilege b c p →
    canFlowToWithPrivilege a c p
  priv_mono : ∀ {a b p q}, implies q p → canFlowToWithPrivilege a b p →
    canFlowToWithPrivilege a b q
  priv_downgrade : ∀ l p, canFlowToWithPrivilege l (downgrade l p) p
  flow_of_priv_true : ∀ {a b}, canFlowToWithPrivilege a b .dcTrue → canFlowTo a b

/-- The laws of implication and conjunction: a preorder with `&` as a meet and `dcTrue` on top. -/
class LawfulConj [LabelCrate] : Prop where
  implies_refl : ∀ a, implies a a
  implies_trans : ∀ {a b c}, implies a b → implies b c → implies a c
  and_implies_left : ∀ a b, implies (LabelCrate.and a b) a
  and_implies_right : ∀ a b, implies (LabelCrate.and a b) b
  implies_and : ∀ {a b c}, implies a b → implies a c → implies a (LabelCrate.and b c)
  implies_true : ∀ a, implies a .dcTrue

/-- The laws of formulas: a formula implies each of its clauses, and the clauses of a conjunction
of formulas are clauses of its parts. -/
class LawfulFormula [LabelCrate] : Prop where
  implies_clause : ∀ {cs : ExtTreeSet Clause compare} {c}, c ∈ cs →
    implies (.dcFormula cs) (.formula [c])
  and_formula : ∀ cs ds : ExtTreeSet Clause compare, ∃ es,
    LabelCrate.and (.dcFormula cs) (.dcFormula ds) = .dcFormula es ∧ ∀ c ∈ es, c ∈ cs ∨ c ∈ ds

/-- The law of `downgrade`: for whoever holds `q`, a label downgraded with `q` is as secret as the
label itself. -/
class LawfulDowngrade [LabelCrate] : Prop where
  implies_downgrade : ∀ l q t, implies (LabelCrate.and q t) (downgrade l q).secrecy =
    implies (LabelCrate.and q t) l.secrecy

/-- The law of joins: the join is one for whoever holds a privilege as well. -/
class LawfulJoin [LabelCrate] : Prop where
  lub_priv : ∀ {a b c p}, canFlowToWithPrivilege a c p → canFlowToWithPrivilege b c p →
    canFlowToWithPrivilege (lub a b) c p

instance [LabelCrate] [LawfulCrate] : Flow.LabelSystem Buckle Component where
  Flows a b := canFlowTo a b
  FlowsUnder p a b := canFlowToWithPrivilege a b p
  Implies p q := implies p q
  lub := lub
  downgrade := downgrade
  flows_refl := LawfulCrate.flow_refl
  flows_trans := LawfulCrate.flow_trans
  flows_lub_left := LawfulCrate.flow_lub_left
  flows_lub_right := LawfulCrate.flow_lub_right
  lub_flows := LawfulCrate.lub_flow
  under_of_flows := LawfulCrate.priv_of_flow
  under_trans := LawfulCrate.priv_trans
  under_mono := LawfulCrate.priv_mono
  under_downgrade p a := LawfulCrate.priv_downgrade a p

end Faasten
